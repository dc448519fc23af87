import Recast.Proofs.Company
import Recast.Proofs.OneShot
import Recast.Proofs.Together

/-!
How long calls take. A program takes a time on a machine when, started there in company, it is due
that much later (`Company.TakesAt`). A mapper takes as long as the slowest of its rules
(`Company.TakesAt.transform`), and a call that is left to itself ends after exactly the time it
takes (`Company.TakesAt.settlesAt`).
-/

set_option autoImplicit false

namespace Recast

namespace Machine

/-- A process that is followed by a program can move when it can move by itself. -/
theorem canMove_bind {p : Proc} (h : p.isOpen = true) (f : Outcome → Prog) (m : Machine) :
    m.canMove (p.bind f) = m.canMove p := by
  cases p with
  | settled o => cases h
  | _ => rfl

theorem wake?_bind (p : Proc) (f : Outcome → Prog) : wake? (p.bind f) = wake? p := by
  cases p <;> rfl

/-- Where one process fills a future and there are no strays, its move is the round. -/
theorem background_eq_writeBack {m m' : Machine} {p q : Proc} (htasks : m.tasks = #[p])
    (hp : advance p m = (m', q)) (hstrays : m'.strays = []) : m.background = m'.writeBack 0 q := by
  have hround : advanceTasks m = m'.writeBack 0 q := by
    rw [advanceTasks, htasks]
    change advanceTask 0 m = _
    rw [advanceTask_eq (p := p) (by simp [htasks]), hp]
  have hnone : (m'.writeBack 0 q).strays = [] := by
    unfold writeBack
    dsimp only
    split <;> exact hstrays
  rw [background, hround]
  generalize m'.writeBack 0 q = t at hnone
  obtain ⟨store, functions, bodies, tasks, customs, strays⟩ := t
  cases hnone
  rfl

end Machine

namespace Company

variable {E : Company} {due d : ℕ} {m : Machine} {p : Proc}

/-- Wherever the program is run, it ends at once, and what it does is what the company allows. -/
def EndsAtOnce (E : Company) (p : Prog) : Prop :=
  ∀ m, E.holds m → ∃ m' o, m.run p = (m', .settled o) ∧ E.work m m'

/-- What has ended was due. -/
theorem Due.le_of_settled {o : Outcome} (h : E.Due .proc due m (.settled o)) :
    due ≤ m.store.now := by
  cases h with
  | ended _ hdue => exact hdue
  | going hopen => cases hopen

/-- Followed by a program that ends at once, a process is due as it is by itself. -/
theorem Due.bind {f : Outcome → Prog} (hf : ∀ o, E.EndsAtOnce (f o)) (h : E.Due .proc due m p)
    (hm : E.holds m) (hopen : p.isOpen = true) : E.Due .proc due m (p.bind f) := by
  induction h with
  | ended hended => cases hopen.symm.trans hended
  | @going m p _ hdue hstays hallowed hmove hstill hwakes hwait ihmove ihwait =>
    have hcan : ∀ m', Mover.proc.canMove m' (p.bind f) = Mover.proc.canMove m' p :=
      fun m' ↦ m'.canMove_bind hopen f
    have hwake : Mover.proc.wake? (p.bind f) = Mover.proc.wake? p := Machine.wake?_bind p f
    have hadvance : ∀ m', Mover.proc.advance (p.bind f) m' =
        Machine.goOn f (Machine.advance p m') := fun m' ↦ Machine.advance_bind p f m'
    have hnext : ∀ m', E.work m m' → Mover.proc.canMove m' p = true →
        E.work m' (Machine.goOn f (Machine.advance p m')).1 ∧
          E.Due .proc due (Machine.goOn f (Machine.advance p m')).1
            (Machine.goOn f (Machine.advance p m')).2 := by
      intro m' hwork hcan
      have hallowed := hallowed m' hwork hcan
      have hholds := E.holds_of_work (E.holds_of_work hm hwork) hallowed
      have hmove := hmove m' hwork hcan
      have ih := ihmove m' hwork hcan hholds
      simp only [Mover.advance_proc] at hallowed hholds hmove ih
      generalize Machine.advance p m' = t at hallowed hholds hmove ih
      obtain ⟨m₁, q⟩ := t
      by_cases hq : q.isOpen = true
      · rw [Machine.goOn_of_ne (Proc.isOpen_eq_true_iff.mp hq)]
        exact ⟨hallowed, ih hq⟩
      · obtain ⟨o, rfl⟩ := Proc.isOpen_eq_false_iff.mp (Bool.not_eq_true _ ▸ hq)
        obtain ⟨m₂, result, hrun, hwork₂⟩ := hf o m₁ hholds
        rw [Machine.goOn, hrun]
        exact ⟨E.trans hallowed hwork₂, .ended rfl (E.now_eq hwork₂ ▸ hmove.le_of_settled)⟩
    refine .going ?_ hdue ?_ ?_ ?_ ?_ ?_ ?_
    · exact Proc.isOpen_eq_true_iff.mpr (p.bind_ne_settled f)
    · simpa only [hcan] using hstays
    · intro m' hwork hmoves
      rw [hadvance]
      exact (hnext m' hwork (hcan m' ▸ hmoves)).1
    · intro m' hwork hmoves
      rw [hadvance]
      exact (hnext m' hwork (hcan m' ▸ hmoves)).2
    · intro m' hwork hwaits
      have hstill : Machine.advance p m' = (m', p) := hstill m' hwork (hcan m' ▸ hwaits)
      rw [hadvance, hstill, Machine.goOn_of_ne (Proc.isOpen_eq_true_iff.mp hopen)]
    · simpa only [hcan, hwake] using hwakes
    · intro m' now hwork hwaits hquiet hpass
      exact ihwait m' now hwork (hcan m' ▸ hwaits) hquiet (hwake ▸ hpass)
        (E.passes (E.holds_of_work hm hwork)) hopen

/-- A process that waits for parts is due when all of them are. -/
theorem Due.joining {k : Option (List Outcome) → Prog} {parts : List Proc}
    (hk : ∀ os, E.EndsAtOnce (k (some os))) (h : E.Due .all due m parts) (hm : E.holds m)
    (hopen : Mover.all.isOpen parts = true) : E.Due .proc due m (.joining false parts k) := by
  induction h with
  | ended hended => cases hopen.symm.trans hended
  | @going m parts _ hdue hstays hallowed hmove hstill hwakes hwait ihmove ihwait =>
    have hnext : ∀ m', E.work m m' → Machine.anyCanMove m' parts = true →
        E.work m' (Machine.advance (.joining false parts k) m').1 ∧
          E.Due .proc due (Machine.advance (.joining false parts k) m').1
            (Machine.advance (.joining false parts k) m').2 := by
      intro m' hwork hcan
      have hallowed := hallowed m' hwork hcan
      have hholds := E.holds_of_work (E.holds_of_work hm hwork) hallowed
      have hmove := hmove m' hwork hcan
      have ih := ihmove m' hwork hcan hholds
      rw [Machine.advance]
      simp only [Mover.advance_all] at hallowed hholds hmove ih
      generalize Machine.advanceAll parts m' = t at hallowed hholds hmove ih
      obtain ⟨m₁, parts₁⟩ := t
      dsimp only at hallowed hholds hmove ih ⊢
      cases hos : Proc.outcomes? parts₁ with
      | none =>
        refine ⟨hallowed, ih (Bool.not_eq_false _ ▸ fun hended ↦ ?_)⟩
        obtain ⟨os, rfl⟩ := Proc.any_isOpen_eq_false_iff.mp hended
        cases hos.symm.trans (Proc.outcomes?_eq_some_iff.mpr rfl)
      | some os =>
        obtain ⟨m₂, result, hrun, hwork₂⟩ := hk os m₁ hholds
        dsimp only
        rw [if_neg (by decide), hrun]
        refine ⟨E.trans hallowed hwork₂, .ended rfl (E.now_eq hwork₂ ▸ ?_)⟩
        obtain rfl := Proc.outcomes?_eq_some_iff.mp hos
        cases hmove with
        | ended _ hdue => exact hdue
        | going hopen =>
          cases hopen.symm.trans (Proc.any_isOpen_eq_false_iff.mpr ⟨os, rfl⟩)
    refine .going rfl hdue hstays (fun m' hwork hcan ↦ (hnext m' hwork hcan).1)
      (fun m' hwork hcan ↦ (hnext m' hwork hcan).2) (fun m' hwork hcan ↦ ?_) hwakes
      fun m' now hwork hcan hquiet hpass ↦ ihwait m' now hwork hcan hquiet hpass
        (E.passes (E.holds_of_work hm hwork)) hopen
    have hstill : Machine.advanceAll parts m' = (m', parts) := hstill m' hwork hcan
    rw [Mover.advance_proc, Machine.advance, hstill]
    dsimp only
    cases hos : Proc.outcomes? parts with
    | none => rfl
    | some os =>
      obtain rfl := Proc.outcomes?_eq_some_iff.mp hos
      cases hopen.symm.trans (Proc.any_isOpen_eq_false_iff.mpr ⟨os, rfl⟩)

/-! ### Programs -/

/-- Started on this machine, the program is due after a time. -/
def TakesAt (E : Company) (m : Machine) (d : ℕ) (p : Prog) : Prop :=
  E.Due .proc (m.store.now + d) m (.fresh p)

/-- So it is wherever it is started. -/
def Takes (E : Company) (d : ℕ) (p : Prog) : Prop := ∀ m, E.holds m → E.TakesAt m d p

/-- A process that has not begun is due as it is once it has begun. -/
theorem Due.fresh {p : Prog} (hdue : m.store.now ≤ due)
    (h : ∀ m', E.work m m' → E.work m' (m'.run p).1 ∧ E.Due .proc due (m'.run p).1 (m'.run p).2) :
    E.Due .proc due m (.fresh p) :=
  .going rfl hdue (fun _ _ _ _ _ ↦ rfl) (fun m' hwork _ ↦ (h m' hwork).1)
    (fun m' hwork _ ↦ (h m' hwork).2) (fun _ _ hcan ↦ nomatch hcan) (fun _ _ hcan ↦ nomatch hcan)
    fun _ _ _ hcan ↦ nomatch hcan

namespace Takes

variable {p : Prog}

theorem run (h : E.Takes d p) (hm : E.holds m) :
    E.work m (m.run p).1 ∧ E.Due .proc (m.store.now + d) (m.run p).1 (m.run p).2 := by
  cases h m hm with
  | ended hended => cases hended
  | going _ _ _ hallowed hmove => exact ⟨hallowed m (E.refl hm) rfl, hmove m (E.refl hm) rfl⟩

theorem of_endsAtOnce (h : E.EndsAtOnce p) : E.Takes 0 p := by
  intro m hm
  refine Due.fresh le_rfl fun m' hwork ↦ ?_
  obtain ⟨m'', o, hrun, hwork'⟩ := h m' (E.holds_of_work hm hwork)
  rw [hrun]
  exact ⟨hwork', .ended rfl (by rw [E.now_eq hwork', E.now_eq hwork]; exact le_rfl)⟩

end Takes

/-- What ends at once when a program has ended takes no more time. -/
theorem TakesAt.bind {p : Prog} {f : Outcome → Prog} (h : E.TakesAt m d p) (hm : E.holds m)
    (hf : ∀ o, E.EndsAtOnce (f o)) : E.TakesAt m d (p.bind f) :=
  Due.bind hf h hm rfl

/-- A process that sleeps goes on when it wakes. -/
theorem Due.sleeping {k : Outcome → Prog} (h : E.Takes d (k (.ok .null))) {wake : ℕ}
    (hm : E.holds m) (hwake : m.store.now ≤ wake) :
    E.Due .proc (wake + d) m (.sleeping wake k) := by
  induction hleft : wake - m.store.now using Nat.strong_induction_on generalizing m with
  | _ left ih =>
    have hwoken : ∀ m', E.work m m' → m'.canMove (.sleeping wake k) = true →
        E.work m' (Machine.advance (.sleeping wake k) m').1 ∧
          E.Due .proc (wake + d) (Machine.advance (.sleeping wake k) m').1
            (Machine.advance (.sleeping wake k) m').2 := by
      intro m' hwork hcan
      have hle : wake ≤ m'.store.now := of_decide_eq_true hcan
      have hnow : m'.store.now = wake := le_antisymm (E.now_eq hwork ▸ hwake) hle
      rw [Machine.advance, if_pos hle]
      exact hnow ▸ h.run (E.holds_of_work hm hwork)
    refine .going rfl (by omega) (fun m' m'' _ hwork hcan ↦ ?_)
      (fun m' hwork hcan ↦ (hwoken m' hwork hcan).1) (fun m' hwork hcan ↦ (hwoken m' hwork hcan).2)
      (fun m' _ hcan ↦ ?_) (fun m' _ _ _ ↦ ?_) fun m' now hwork hcan _ hpass ↦ ?_
    · exact decide_eq_true (E.now_eq hwork ▸ of_decide_eq_true hcan)
    · exact if_neg (of_decide_eq_false hcan)
    · simp [Machine.bound, Machine.earlier_ne_none_iff, Mover.proc, Machine.wake?]
    · obtain ⟨hlater, hbound⟩ := hpass
      simp only [Machine.bound, Machine.forall_mem_earlier_iff] at hbound
      have hle : now ≤ wake := hbound.2.2 wake rfl
      have hsame := E.now_eq hwork
      exact ih (wake - now) (by omega) (E.passes (E.holds_of_work hm hwork)) hle rfl

namespace Takes

variable {p : Prog}

theorem sleep {ms : ℕ} {k : Outcome → Prog} (h : E.Takes d (k (.ok .null))) :
    E.Takes (ms + d) (.sleep ms k) := by
  intro m hm
  refine Due.fresh (by omega) fun m' hwork ↦ ?_
  have hm' := E.holds_of_work hm hwork
  refine ⟨E.refl hm', ?_⟩
  rw [← Nat.add_assoc, ← E.now_eq hwork]
  exact Due.sleeping h hm' (Nat.le_add_right _ _)

end Takes

/-! ### Futures -/

/-- In company, a future is filled at a time. A fact about the machine says so: it holds whatever
the company does, and while the future is open, something wakes in time and no time is passed by. -/
structure Fills (E : Company) (i due : ℕ) (P : Machine → Prop) : Prop where
  holds {m : Machine} (h : P m) : E.holds m
  le {m : Machine} (h : P m) : m.store.now ≤ due
  ge {m : Machine} (h : P m) (hfilled : (m.future? i).isSome) : due ≤ m.store.now
  work {m m' : Machine} (h : P m) (hwork : E.work m m') : P m'
  stays {m m' : Machine} (h : P m) (hwork : E.work m m') (hfilled : (m.future? i).isSome) :
    (m'.future? i).isSome
  wakes {m : Machine} (h : P m) (hopen : m.future? i = none) (hquiet : m.IsQuiet) :
    m.bound none ≠ none
  passes {m : Machine} {now : ℕ} (h : P m) (hopen : m.future? i = none) (hquiet : m.IsQuiet)
    (hpass : m.MayPass none now) : P (m.later now)

namespace Fills

variable {i : ℕ} {P : Machine → Prop}

/-- What waits for the future is due when it is filled. -/
theorem awaiting (h : E.Fills i due P) (hm : P m) : E.Due .proc due m (.awaiting i .done) := by
  induction hleft : due - m.store.now using Nat.strong_induction_on generalizing m with
  | _ left ih =>
    have hfilled : ∀ m', E.work m m' → (m'.future? i).isSome = true →
        ∃ o, Machine.advance (.awaiting i .done) m' = (m', .settled o) := by
      intro m' _ hcan
      obtain ⟨o, ho⟩ := Option.isSome_iff_exists.mp hcan
      refine ⟨o, ?_⟩
      rw [Machine.advance, ho]
      exact m'.run_done o
    have hopen : ∀ m' : Machine, (m'.future? i).isSome = false → m'.future? i = none :=
      fun m' hcan ↦ Option.not_isSome_iff_eq_none.mp (Bool.eq_false_iff.mp hcan)
    refine .going rfl (h.le hm)
      (fun m' m'' hwork hwork' hcan ↦ h.stays (h.work hm hwork) hwork' hcan)
      (fun m' hwork hcan ↦ ?_) (fun m' hwork hcan ↦ ?_) (fun m' hwork hcan ↦ ?_)
      (fun m' hwork hcan hquiet ↦ h.wakes (h.work hm hwork) (hopen m' hcan) hquiet)
      fun m' now hwork hcan hquiet hpass ↦ ?_
    · obtain ⟨o, ho⟩ := hfilled m' hwork hcan
      rw [Mover.advance_proc, ho]
      exact E.refl (h.holds (h.work hm hwork))
    · obtain ⟨o, ho⟩ := hfilled m' hwork hcan
      rw [Mover.advance_proc, ho]
      exact .ended rfl (h.ge (h.work hm hwork) hcan)
    · rw [Mover.advance_proc, Machine.advance, hopen m' hcan]
    · have hlater : m'.store.now < now := hpass.1
      have hnext : P (m'.later now) := h.passes (h.work hm hwork) (hopen m' hcan) hquiet hpass
      have hle : now ≤ due := h.le hnext
      have hsame := E.now_eq hwork
      exact ih (due - now) (by omega) hnext rfl

/-- A rule whose compute is the future takes until the future is filled. -/
theorem takesAt (h : E.Fills i due P) (hm : P m) {r : Rule} {v source : Value}
    (hr : r.compute = .literal v) (hv : v = .awaitable .task i ∨ v = .awaitable .future i)
    (hobtain : ∀ m, P m → ∃ m', m.run (r.obtain source) = (m', .settled (.ok v)) ∧ E.work m m') :
    E.TakesAt m (due - m.store.now) (r.evaluate source) := by
  have hevaluate : r.evaluate source = (r.obtain source).andThen Compute.await := by
    rw [Rule.evaluate, hr]
  rw [hevaluate, TakesAt, Nat.add_sub_cancel' (h.le hm)]
  refine Due.fresh (h.le hm) fun m' hwork ↦ ?_
  obtain ⟨m₁, hrun, hwork₁⟩ := hobtain m' (h.work hm hwork)
  have hm₁ := h.work (h.work hm hwork) hwork₁
  have hawait : m'.run ((r.obtain source).andThen Compute.await) = m₁.run (Compute.await v) := by
    rw [Prog.andThen, Machine.run_bind, hrun]
    rfl
  rw [hawait]
  rcases Machine.execWith_await_future (Machine.exec (Machine.depthLimit - 1)) m₁ hv with
    ⟨o, ho, hend⟩ | hwaits
  · rw [show m₁.run (Compute.await v) = (m₁, .settled o) from hend]
    exact ⟨hwork₁, .ended rfl (h.ge hm₁ (by simp [ho]))⟩
  · rw [show m₁.run (Compute.await v) = (m₁, .awaiting i .done) from hwaits]
    exact ⟨hwork₁, h.awaiting hm₁⟩

end Fills

/-! ### Mappers -/

/-- What a mapper does by itself is what the company allows: its target can be made, and its rules
may write into it. -/
structure Lets (E : Company) (mapper : Mapper) : Prop where
  made {m : Machine} (hm : E.holds m) :
    ∃ target built, Action.construct mapper.target m.store = (.ok target, built)
  writes {m m' : Machine} {target v : Value} {built : Store} {r : Rule} (hm : E.holds m)
    (hmade : Action.construct mapper.target m.store = (.ok target, built)) (hr : r ∈ mapper.rules)
    (hm' : E.holds m') : E.work m' (m'.act (r.binder.write target v)).2

/-- Writes are allowed where nothing of the store is kept. -/
theorem Lets.of_base_eq_zero (hbase : E.base = 0) {mapper : Mapper}
    (hmade : ∀ m, E.holds m →
      ∃ target built, Action.construct mapper.target m.store = (.ok target, built)) :
    E.Lets mapper where
  made hm := hmade _ hm
  writes {_ m' target v _ r} _ _ _ hm' := by
    refine E.own hm' (hbase ▸ ?_)
    exact (r.binder.sameBelow_compiled 0 m'.store).trans
      (r.slot.addsFrom_write target v _ (Nat.zero_le _))

section

variable {mapper : Mapper} {source target : Value}

/-- What leaves a coroutine leaves it at once. -/
theorem endsAtOnce_guarded (o : Outcome) : E.EndsAtOnce (Prog.guarded o) := by
  intro m hm
  obtain ⟨id, result, hrun, _⟩ := m.run_guarded o
  exact ⟨_, result, hrun, E.own hm
    ⟨rfl, rfl, rfl, rfl, rfl, rfl, rfl, rfl, le_rfl, fun _ _ ↦ rfl⟩⟩

theorem endsAtOnce_finish {r : Rule}
    (hwrite : ∀ m v, E.holds m → E.work m (m.act (r.binder.write target v)).2) (o : Outcome) :
    E.EndsAtOnce (r.finish target o) := by
  intro m hm
  cases o with
  | error e => exact endsAtOnce_guarded (.error e) m hm
  | ok v =>
    have hwork := hwrite m v hm
    obtain ⟨m', result, hrun, hwork'⟩ := endsAtOnce_guarded (m.act (r.binder.write target v)).1 _
      (E.holds_of_work hm hwork)
    exact ⟨m', result, hrun, E.trans hwork hwork'⟩

theorem endsAtOnce_thereupon (outcomes : List Outcome) :
    E.EndsAtOnce (mapper.thereupon target (some outcomes)) := by
  intro m hm
  obtain ⟨s, o, hrun, hbelow⟩ := mapper.run_thereupon target outcomes m
  exact ⟨_, o, hrun, E.own hm (hbelow E.base)⟩

/-- Rules side by side are due when the slowest is. -/
theorem due_rules {rules : List Rule} {d : Rule → ℕ} (hm : E.holds m)
    (hrules : ∀ r ∈ rules, E.TakesAt m (d r) (r.apply source target)) :
    E.Due .all (m.store.now + (rules.map d).foldr max 0) m
      ((rules.map fun r ↦ r.apply source target).map .fresh) := by
  induction rules with
  | nil => exact .ended rfl le_rfl
  | cons r rest ih =>
    obtain ⟨hr, hrest⟩ := List.forall_mem_cons.mp hrules
    rw [List.map_cons, List.foldr_cons, ← Nat.add_max_add_left]
    exact Due.cons hr hm (ih hrest)

/-- A mapper takes as long as the slowest of its rules. -/
theorem TakesAt.transform (hm : E.holds m) (hlets : E.Lets mapper) (hrules : mapper.rules ≠ [])
    (hsource : source ≠ .null) {d : Rule → ℕ}
    (hcomputes : ∀ r ∈ mapper.rules, E.TakesAt m (d r) (r.evaluate source)) :
    E.TakesAt m ((mapper.rules.map d).foldr max 0) (mapper.transform source).asCoroutine := by
  refine Due.fresh (Nat.le_add_right _ _) fun m' hwork ↦ ?_
  have hm' := E.holds_of_work hm hwork
  obtain ⟨target, built, hmade⟩ := hlets.made hm'
  have hrun : m'.run (mapper.transform source).asCoroutine =
      ({ m' with store := built },
        .joining false ((mapper.rules.map fun r ↦ r.apply source target).map .fresh)
          (mapper.thereupon target)) := by
    rw [Prog.asCoroutine, Machine.run_bind, mapper.run_transform hrules hsource hmade]
    rfl
  have hbelow := Action.sameBelow_construct mapper.target m'.store
  rw [hmade] at hbelow
  have hbuilt : E.work m' { m' with store := built } := E.own hm' (hbelow.mono (E.base_le hm'))
  have hholds := E.holds_of_work hm' hbuilt
  have hdue : E.Due .all (m.store.now + (mapper.rules.map d).foldr max 0) { m' with store := built }
      ((mapper.rules.map fun r ↦ r.apply source target).map .fresh) := by
    have hsame := E.now_eq (E.trans hwork hbuilt)
    rw [← hsame]
    refine due_rules hholds fun r hr ↦ ?_
    have hcompute : E.TakesAt { m' with store := built } (d r) (r.evaluate source) := by
      rw [TakesAt, hsame]
      exact (hcomputes r hr).work (E.trans hwork hbuilt)
    rw [r.apply_eq]
    exact hcompute.bind hholds
      (endsAtOnce_finish fun m₁ v hm₁ ↦ hlets.writes hm' hmade hr hm₁)
  rw [hrun]
  refine ⟨hbuilt, hdue.joining endsAtOnce_thereupon hholds ?_⟩
  obtain ⟨r, rest, hcons⟩ := List.exists_cons_of_ne_nil hrules
  rw [hcons]
  rfl

end

end Company

/-! ### Runs by themselves -/

namespace Machine

/-- Where nothing can move, what wakes next wakes later. -/
theorem lt_of_bound {m : Machine} {p : Proc} (hquiet : m.IsQuiet) (hcan : m.canMove p = false)
    {t : ℕ} (ht : m.bound (wake? p) = some t) : m.store.now < t := by
  refine (?_ : ∀ t ∈ m.bound (wake? p), m.store.now + 1 ≤ t) t ht
  simp only [bound, forall_mem_earlier_iff]
  exact ⟨lt_of_anyCanMove _ hquiet.1, lt_of_anyCanMove _ hquiet.2, lt_of_canMove p hcan⟩

variable {p : Proc} {m : Machine} (began : ℕ)

/-- The only run that is waited for, while it has not ended. -/
def sole (p : Proc) (began : ℕ) : List Leg := [⟨p, began, none, none⟩]

/-- Left to itself with the background, the process ends after some rounds, and does so at a time.
-/
def SettlesAt (m : Machine) (p : Proc) (began time : ℕ) : Prop :=
  ∃ rounds m' o, ∀ more, settle (rounds + more) m (sole p began) =
    (m', [⟨.settled o, began, none, some time⟩])

theorem settle_settled (m : Machine) (o : Outcome) (ended : Option ℕ) (fuel : ℕ) :
    settle fuel m [⟨.settled o, began, none, ended⟩] =
      (m, [⟨.settled o, began, none, ended⟩]) := by
  cases fuel <;> rfl

theorem nextTime?_sole (p : Proc) (m : Machine) :
    m.nextTime? (sole p began) = m.bound (wake? p) := by
  have hdeadlines : ((sole p began).filter Leg.isOpen).foldl
      (fun t (l : Leg) ↦ earlier t l.deadline) none = none := by
    cases hopen : p.isOpen <;> simp [sole, Leg.isOpen, hopen, earlier]
  rw [nextTime?, hdeadlines]
  exact congrArg m.bound (earlier_none (wake? p))

theorem isBusy_sole_eq_false_iff (p : Proc) (m : Machine) :
    m.isBusy (sole p began) = false ↔ m.IsQuiet ∧ m.canMove p = false := by
  simp [isBusy, IsQuiet, sole, anyCanMove]

/-- Else there is a round, and in it the run has its turn. -/
theorem settle_turn (hopen : p.isOpen = true) (hbusy : m.isBusy (sole p began) = true) (fuel : ℕ) :
    settle (fuel + 1) m (sole p began) = settle fuel (advance p m.background).1
      [⟨(advance p m.background).2, began, none,
        if (advance p m.background).2.isOpen then none
        else some (advance p m.background).1.store.now⟩] := by
  have hany : (sole p began).any Leg.isOpen = true := by simpa [sole, Leg.isOpen] using hopen
  have hround : round m (sole p began) = ((advance p m.background).1,
      [⟨(advance p m.background).2, began, none,
        if (advance p m.background).2.isOpen then none
        else some (advance p m.background).1.store.now⟩]) := by
    have hleg : (Leg.mk p began none none).isOpen = true := hopen
    rw [round, sole, advanceLegs, if_pos hleg]
    rfl
  rw [settle, hany, hbusy, hround]
  rfl

namespace SettlesAt

variable {began} {time : ℕ}

/-- When the run has to wait and nothing else can move, the clock jumps. -/
theorem wait (hopen : p.isOpen = true) (hbusy : m.isBusy (sole p began) = false) {t : ℕ}
    (ht : m.bound (wake? p) = some t) (h : (m.later (max t m.store.now)).SettlesAt p began time) :
    m.SettlesAt p began time := by
  obtain ⟨rounds, m', o, hsettle⟩ := h
  have hany : (sole p began).any Leg.isOpen = true := by simpa [sole, Leg.isOpen] using hopen
  refine ⟨rounds + 1, m', o, fun more ↦ ?_⟩
  rw [Nat.add_right_comm, settle, hany, hbusy, nextTime?_sole, ht]
  exact hsettle more

/-- A round after which the run goes on. -/
theorem turn (hopen : p.isOpen = true) (hbusy : m.isBusy (sole p began) = true) {m₁ : Machine}
    {q : Proc} (hturn : advance p m.background = (m₁, q)) (hq : q.isOpen = true)
    (h : m₁.SettlesAt q began time) : m.SettlesAt p began time := by
  obtain ⟨rounds, m', o, hsettle⟩ := h
  refine ⟨rounds + 1, m', o, fun more ↦ ?_⟩
  rw [Nat.add_right_comm, settle_turn began hopen hbusy, hturn, if_pos hq]
  exact hsettle more

/-- The round in which the run ends. -/
theorem ends (hopen : p.isOpen = true) (hbusy : m.isBusy (sole p began) = true) {m₁ : Machine}
    {o : Outcome} (hturn : advance p m.background = (m₁, .settled o)) :
    m.SettlesAt p began m₁.store.now := by
  refine ⟨1, m₁, o, fun more ↦ ?_⟩
  rw [Nat.add_comm, settle_turn began hopen hbusy, hturn]
  exact settle_settled began m₁ o _ more

end SettlesAt

end Machine

namespace Company

variable {E : Company} {due d : ℕ} {m : Machine} {p : Proc}

/-- Left to itself with the background, a process that is due at a time ends at this time. -/
theorem Due.settlesAt (h : E.Due .proc due m p) (hm : E.holds m) (hopen : p.isOpen = true)
    (began : ℕ) : m.SettlesAt p began due := by
  induction h with
  | ended hended => cases hopen.symm.trans hended
  | @going m p _ hdue hstays hallowed hmove hstill hwakes hwait ihmove ihwait =>
    have hstep : ∀ m₁, E.work m m₁ → m₁.SettlesAt p began due ∨
        ¬ m₁.IsQuiet ∧ (m₁.background.SettlesAt p began due → m₁.SettlesAt p began due) := by
      intro m₁ hwork
      have hm₁ := E.holds_of_work hm hwork
      have hround := E.trans hwork (E.background hm₁)
      cases hbusy : m₁.isBusy (Machine.sole p began) with
      | false =>
        obtain ⟨hquiet, hcan⟩ := (Machine.isBusy_sole_eq_false_iff began p m₁).mp hbusy
        obtain ⟨t, ht⟩ := Option.ne_none_iff_exists'.mp (hwakes m₁ hwork hcan hquiet)
        rw [Mover.wake?_proc] at ht
        have hlater : m₁.store.now < t := Machine.lt_of_bound hquiet hcan ht
        refine Or.inl (.wait hopen hbusy ht ?_)
        rw [max_eq_left hlater.le]
        exact ihwait m₁ t hwork hcan hquiet
          ⟨hlater, fun t' ht' ↦ (Option.some.inj (ht.symm.trans ht')).le⟩ (E.passes hm₁) hopen
      | true =>
        cases hcan : m₁.background.canMove p with
        | true =>
          have hallowed := hallowed _ hround hcan
          have hholds := E.holds_of_work (E.holds_of_work hm hround) hallowed
          have hmove := hmove _ hround hcan
          have hnow := (E.now_eq hallowed).trans (E.now_eq hround)
          cases hq : (Machine.advance p m₁.background).2.isOpen with
          | true => exact Or.inl (.turn hopen hbusy rfl hq (ihmove _ hround hcan hholds hq))
          | false =>
            obtain ⟨o, ho⟩ := Proc.isOpen_eq_false_iff.mp hq
            rw [Mover.advance_proc, ho] at hmove
            rw [← le_antisymm (hnow.trans_le hdue) hmove.le_of_settled]
            exact Or.inl (.ends hopen hbusy (Prod.ext rfl ho))
        | false =>
          have hstill : Machine.advance p m₁.background = (m₁.background, p) :=
            hstill _ hround hcan
          refine Or.inr ⟨fun hquiet ↦ ?_, .turn hopen hbusy hstill hopen⟩
          have hcan₁ : m₁.canMove p = true := by
            by_contra hnot
            have hidle := (Machine.isBusy_sole_eq_false_iff began p m₁).mpr
              ⟨hquiet, Bool.not_eq_true _ ▸ hnot⟩
            cases hbusy.symm.trans hidle
          cases (hstays m₁ _ hwork (E.background hm₁) hcan₁).symm.trans hcan
    obtain ⟨n, hrests⟩ := E.rests hm
    -- on the number of rounds in which the background comes to rest
    suffices hall : ∀ n m₁, E.work m m₁ → (Machine.background^[n] m₁).IsQuiet →
        m₁.SettlesAt p began due from hall n m (E.refl hm) hrests
    clear hrests n
    intro n
    induction n with
    | zero => exact fun m₁ hwork hquiet ↦ (hstep m₁ hwork).resolve_right fun h ↦ h.1 hquiet
    | succ n ih =>
      intro m₁ hwork hrests
      rcases hstep m₁ hwork with hends | ⟨_, hround⟩
      · exact hends
      · exact hround (ih _ (E.trans hwork (E.background (E.holds_of_work hm hwork))) hrests)

/-- Left to itself with the background, what takes a time ends after this time. -/
theorem TakesAt.settlesAt {p : Prog} (h : E.TakesAt m d p) (hm : E.holds m) :
    m.SettlesAt (.fresh p) m.store.now (m.store.now + d) :=
  Due.settlesAt h hm rfl m.store.now

end Company

end Recast
