import Recast.Proofs.OneShot

/-!
Calls that share an awaitable. Rules at one cell take the awaitable that was kept there; all others
leave it alone, where the facts hold that they rely on and with the sources of the calls. The facts
are about objects; what mappers do to objects, to make their targets and to fill them, must not take
them away (`Footing.Carries`). Then scenes stay in order (`OneShot.InOrder`): the awaitable has been
handed over exactly when a call has reached the rule, and what such a rule was given is what the one
future was filled with.
-/

set_option autoImplicit false

namespace Recast

/-- What a plain function gives is what its rule obtains, if it is no awaitable. -/
theorem Rule.execWith_of_plain {r : Rule} {g : Value → Prog} {source v : Value}
    (hr : r.compute = .plain g) (hv : v.isAwaitable = false)
    {enter : Prog → Machine → Machine × Proc} {m m' : Machine}
    (h : Machine.execWith enter (g source) m = (m', .settled (.ok v))) :
    Machine.execWith enter (r.evaluate source) m = (m', .settled (.ok v)) ∧
      Machine.execWith enter (r.obtainSync source) m = (m', .settled (.ok v)) := by
  have hobtain : r.obtain source = g source := by
    rw [obtain, hr]
    rfl
  have hevaluate : r.evaluate source = (g source).andThen Compute.await := by
    rw [evaluate, hr]
    rfl
  constructor
  · rw [hevaluate, Prog.andThen, Machine.execWith_bind, h, Machine.goOnWith]
    dsimp only
    rw [Compute.await, hv]
    rfl
  · rw [obtainSync, hobtain, Prog.andThen, Machine.execWith_bind, h, Machine.goOnWith]
    dsimp only
    rw [hv]
    rfl

namespace OneShot

variable {w : OneShot} {f : Footing} {sources : Set Value} {r : Rule} {kind : Mapper.Kind}

/-! ### Other computes -/

/-- Where the facts hold, the compute of a rule leaves them and the awaitable alone when it is
called with the source. Where nothing is waited for, it ends at once. -/
def Ignores (w : OneShot) (f : Footing) (kind : Mapper.Kind) (r : Rule) (source : Value) : Prop :=
  match kind with
  | .asynchronous => w.Discreet f (r.evaluate source)
  | .synchronous => ∀ m : Machine, m.IsRegular → f.holds m → ∃ m' o,
      m.run (r.obtainSync source) = (m', .settled o) ∧ w.Spares m m' ∧ f.holds m'

theorem discreet_of_good {p : Prog} (good : Proc → Prop)
    (hbegin : ∀ (depth : ℕ) (m m' : Machine) q, m.IsRegular → f.holds m →
      Machine.exec depth p m = (m', q) → w.Spares m m' ∧ f.holds m' ∧ good q)
    (hmove : ∀ (m : Machine) q m' r, good q → m.IsRegular → f.holds m → Machine.Move m q m' r →
      w.Spares m m' ∧ f.holds m' ∧ good r) : w.Discreet f p := by
  have hall : ∀ m m' q, Machine.Plays f p m m' q → w.Spares m m' ∧ f.holds m' ∧ good q := by
    intro m m' q hplays
    induction hplays with
    | begin hm hf h => exact hbegin _ _ _ _ hm hf h
    | proceed _ hm hf hnext ih => exact hmove _ _ _ _ ih.2.2 hm hf hnext
  intro m m' q hplays
  obtain ⟨hspares, hf, _⟩ := hall m m' q hplays
  exact ⟨hspares, hf⟩

theorem exists_exec_eq (depth : ℕ) : ∃ enter, Machine.exec depth = Machine.execWith enter := by
  cases depth with
  | zero => exact ⟨_, rfl⟩
  | succ depth => exact ⟨_, rfl⟩

/-- A program is left alone with, if it ends at once wherever the facts hold. -/
theorem discreet_of_exec {p : Prog}
    (h : ∀ depth m, m.IsRegular → f.holds m → ∃ m' o,
      Machine.exec depth p m = (m', .settled o) ∧ w.Spares m m' ∧ f.holds m') :
    w.Discreet f p := by
  refine discreet_of_good (fun q ↦ ∃ o, q = .settled o) ?_ ?_
  · intro depth m m' q hm hf hexec
    obtain ⟨m'', o, hend, hspares, hf'⟩ := h depth m hm hf
    cases hend.symm.trans hexec
    exact ⟨hspares, hf', o, rfl⟩
  · rintro m _ m' r ⟨o, rfl⟩ _ _ hmove
    exact absurd rfl (hmove.ne_settled o)

/-- A plain function that only reads where the facts hold leaves all as it is. -/
theorem ignores_of_reading {g : Value → Prog} {source v : Value} (hr : r.compute = .plain g)
    (hv : v.isAwaitable = false)
    (h : ∀ enter m, f.holds m → Machine.execWith enter (g source) m = (m, .settled (.ok v))) :
    w.Ignores f .asynchronous r source ∧ w.Ignores f .synchronous r source := by
  constructor
  · refine discreet_of_exec fun depth m _ hf ↦ ⟨m, .ok v, ?_, .refl w m, hf⟩
    obtain ⟨enter, henter⟩ := exists_exec_eq depth
    rw [henter]
    exact (Rule.execWith_of_plain hr hv (h enter m hf)).1
  · intro m _ hf
    exact ⟨m, .ok v, (Rule.execWith_of_plain hr hv (h _ m hf)).2, .refl w m, hf⟩

/-- A rule for another awaitable shares that, and waits for the future of that. -/
theorem discreet_shareOnce {v : OneShot} (hcell : v.cell ≠ w.cell) :
    w.Discreet f ((Rule.shareOnce v.cell v.value).andThen Compute.await) := by
  refine discreet_of_good (fun q ↦ (∃ o, q = .settled o) ∨ ∃ i, q = .awaiting i .done) ?_ ?_
  · intro depth m m' q hm hf h
    obtain ⟨enter, henter⟩ := exists_exec_eq depth
    obtain ⟨m₁, u, hshare, ⟨i, hu⟩, hm₁⟩ := v.exists_execWith_shareOnce enter hm
    have hspares : w.Spares m m₁ ∧ f.holds m₁ := by
      rcases hm₁ with ⟨rfl, _⟩ | ⟨rfl, _⟩
      · exact ⟨spares_handOver hcell, f.steady hf (v.sameObjects_handOver m)⟩
      · exact ⟨.refl w m₁, hf⟩
    rw [henter, Prog.andThen, Machine.execWith_bind, hshare, Machine.goOnWith] at h
    rcases Machine.execWith_await_future enter m₁ hu with ⟨o, _, hawait⟩ | hawait
    · cases hawait.symm.trans h
      exact ⟨hspares.1, hspares.2, Or.inl ⟨o, rfl⟩⟩
    · cases hawait.symm.trans h
      exact ⟨hspares.1, hspares.2, Or.inr ⟨i, rfl⟩⟩
  · rintro m _ m' r (⟨o, rfl⟩ | ⟨i, rfl⟩) _ hf hmove
    · exact absurd rfl (hmove.ne_settled o)
    · cases hmove with
      | receive _ hrun =>
        cases hrun
        exact ⟨.refl w m, hf, Or.inl ⟨_, rfl⟩⟩

/-! ### Scenes in order -/

/-- The future of the awaitable has been filled with the outcome. -/
def HasGiven (w : OneShot) (m : Machine) (o : Outcome) : Prop :=
  ∃ f i, w.noted m = [f] ∧ (f = .awaitable .task i ∨ f = .awaitable .future i) ∧
    m.future? i = some o

theorem HasGiven.keeps {m m' : Machine} {o : Outcome} (h : w.HasGiven m o) (hkeeps : w.Keeps m m') :
    w.HasGiven m' o := by
  obtain ⟨f, i, hnoted, hf, ho⟩ := h
  exact ⟨f, i, (hkeeps.noted (hnoted ▸ List.cons_ne_nil f [])).trans hnoted, hf,
    hkeeps.filled i o ho⟩

/-- Scenes of mappers in which the rules at the cell, and no others, have the awaitable as their
compute, and which take nothing away that is relied on. What else goes on leaves that and the
awaitable alone, or is a move of the task that runs it. -/
def setting (w : OneShot) (f : Footing) : Setting where
  admits mapper kind := mapper.rules ≠ [] ∧ f.Carries mapper ∧
    ∀ r ∈ mapper.rules, r.binder.cell = w.cell →
      kind = .asynchronous ∧ r.compute = .literal w.value
  quiet m m' := w.Spares m m' ∧ (f.holds m → f.holds m') ∨ w.TaskMoves m m'
  opens r m m' :=
    (r.binder.cell = w.cell →
      ∃ f, m.run (Rule.shareOnce w.cell w.value) = (m', .settled (.ok f))) ∧
    (r.binder.cell ≠ w.cell → m' = m)
  gives r _ σ o := r.binder.cell = w.cell → w.HasGiven σ.machine o

end OneShot

/-- A call has reached a rule at a cell: the compute of the rule has begun. -/
def Activation.Reaches (x : Activation) (cell : Cell) : Prop :=
  ∃ (i : ℕ) (r : Rule) (g : Progress), x.mapper.rules[i]? = some r ∧ r.binder.cell = cell ∧
    x.progress[i]? = some g ∧ g ≠ .waiting

/-- A call has been given an outcome by the compute of a rule at a cell. -/
def Activation.Received (x : Activation) (cell : Cell) (given : Outcome) : Prop :=
  ∃ (i : ℕ) (r : Rule) (result : Outcome), x.mapper.rules[i]? = some r ∧ r.binder.cell = cell ∧
    x.progress[i]? = some (.ended given result)

namespace Activation

variable {x : Activation} {cell : Cell} {i : ℕ} {g before : Progress}

theorem not_reaches_of_nil (h : x.progress = []) : ¬ x.Reaches cell := by
  rintro ⟨i, r, g, _, _, hg, _⟩
  rw [h] at hg
  cases hg

theorem not_reaches_begun (x : Activation) (t : Making) (cell : Cell) :
    ¬ (x.begun t).Reaches cell := by
  rintro ⟨i, r, g, _, _, hg, hne⟩
  obtain ⟨_, _, rfl⟩ := List.mem_map.mp (List.mem_of_getElem? hg)
  exact hne rfl

theorem Received.reaches {given : Outcome} (h : x.Received cell given) : x.Reaches cell := by
  obtain ⟨i, r, result, hr, hcell, hi⟩ := h
  exact ⟨i, r, _, hr, hcell, hi, nofun⟩

theorem Reaches.advance (h : x.Reaches cell) (hi : x.progress[i]? = some before)
    (hg : g ≠ .waiting) : (x.advance i g).Reaches cell := by
  obtain ⟨j, r, g', hr, hcell, hj, hne⟩ := h
  by_cases hij : i = j
  · subst hij
    exact ⟨i, r, g, hr, hcell, progress_advance_self hi g, hg⟩
  · exact ⟨j, r, g', hr, hcell, (x.progress_advance_of_ne hij g).trans hj, hne⟩

theorem Reaches.of_advance (h : (x.advance i g).Reaches cell) :
    x.Reaches cell ∨ ∃ r, x.mapper.rules[i]? = some r ∧ r.binder.cell = cell := by
  obtain ⟨j, r, g', hr, hcell, hj, hne⟩ := h
  by_cases hij : i = j
  · subst hij
    exact Or.inr ⟨r, hr, hcell⟩
  · exact Or.inl ⟨j, r, g', hr, hcell, (x.progress_advance_of_ne hij g).symm.trans hj, hne⟩

theorem Received.of_advance {given : Outcome} (h : (x.advance i g).Received cell given)
    (hi : x.progress[i]? = some before) :
    x.Received cell given ∨
      ∃ r result, x.mapper.rules[i]? = some r ∧ r.binder.cell = cell ∧
        g = .ended given result := by
  obtain ⟨j, r, result, hr, hcell, hj⟩ := h
  by_cases hij : i = j
  · subst hij
    rw [progress_advance_self hi] at hj
    exact Or.inr ⟨r, result, hr, hcell, Option.some.inj hj⟩
  · exact Or.inl ⟨j, r, result, hr, hcell, (x.progress_advance_of_ne hij g).symm.trans hj⟩

end Activation

namespace OneShot

variable {w : OneShot} {f : Footing} {r : Rule} {σ τ : Scene} {a : List ℕ} {x y : Activation}
  {m : Machine}

/-- A call of a mapper of the setting: its target was made where the facts held, and only with a
source and a target do its rules come any further. -/
structure Grounded (w : OneShot) (f : Footing) (x : Activation) : Prop where
  admitted : (w.setting f).admits x.mapper x.kind
  made : ∀ t, x.made = some t → f.HasMade x.mapper.target t.target
  progress : x.progress = [] ∨ x.source ≠ .null ∧ ∃ t, x.made = some t

namespace Grounded

theorem advance (h : w.Grounded f x) {i : ℕ} {before : Progress}
    (hi : x.progress[i]? = some before) (g : Progress) : w.Grounded f (x.advance i g) where
  admitted := h.admitted
  made := h.made
  progress := by
    rcases h.progress with hnil | hmade
    · rw [hnil] at hi
      cases hi
    · exact Or.inr hmade

theorem close (h : w.Grounded f x) (o : Outcome) : w.Grounded f (x.close o) :=
  ⟨h.admitted, h.made, h.progress⟩

/-- Completing a rule of the call takes nothing away that is relied on. -/
theorem holds_complete (h : w.Grounded f x) {t : Making} (ht : x.made = some t) {i : ℕ}
    (hr : x.mapper.rules[i]? = some r) {m m' : Machine} (hf : f.holds m) {kind : Mapper.Kind}
    {o : Outcome} {q : Proc} (hrun : m.run (r.complete t.target kind o) = (m', q)) :
    f.holds m' := by
  obtain ⟨_, ⟨_, hbears⟩, _⟩ := h.admitted
  exact (hbears r (List.mem_of_getElem? hr)).complete (h.made t ht) hf hrun

end Grounded

/-- The awaitable has been handed over exactly when a call has reached the rule, and whoever has
been given an outcome by the rule has been given that of the one future. Only calls with a source
and a target come that far. -/
structure InOrder (w : OneShot) (f : Footing) (σ : Scene) : Prop where
  holds : f.holds σ.machine
  regular : σ.machine.IsRegular
  standing : w.Standing f σ.machine
  reached : w.noted σ.machine ≠ [] ↔ ∃ a x, σ.activation a = some x ∧ x.Reaches w.cell
  received : ∀ a x given, σ.activation a = some x → x.Received w.cell given →
    w.HasGiven σ.machine given
  grounded : ∀ a x, σ.activation a = some x → w.Grounded f x

namespace InOrder

/-- Nothing has been called, and the awaitable is as it was made. -/
theorem bare (hf : f.holds m) (hm : m.IsRegular) (hnoted : w.noted m = [])
    (hat : w.IsAt .untouched m) : w.InOrder f (.bare m) where
  holds := hf
  regular := hm
  standing := .kept hnoted hat
  reached := iff_of_false (not_not.mpr hnoted) nofun
  received := nofun
  grounded := nofun

theorem progress_eq_nil (h : w.InOrder f σ) (hx : σ.activation a = some x) (hnew : x.IsNew) :
    x.progress = [] := by
  rcases (h.grounded a x hx).progress with hnil | ⟨_, t, ht⟩
  · exact hnil
  · exact absurd (hnew.1.symm.trans ht) (Option.some_ne_none t).symm

/-- A call changes, and what it reaches has been handed over. -/
theorem put (h : w.InOrder f σ) (hf : f.holds m) (hm : m.IsRegular) (hstanding : w.Standing f m)
    (hkeeps : w.Keeps σ.machine m)
    (hnoted : w.noted m ≠ [] → w.noted σ.machine ≠ [] ∨ y.Reaches w.cell)
    (hreaches : y.Reaches w.cell → w.noted m ≠ [])
    (hstill : ∀ x, σ.activation a = some x → x.Reaches w.cell → y.Reaches w.cell)
    (hreceived : ∀ given, y.Received w.cell given → w.HasGiven m given)
    (hgrounded : w.Grounded f y) : w.InOrder f (σ.put a y m) where
  holds := hf
  regular := hm
  standing := hstanding
  reached := by
    constructor
    · intro hne
      rcases hnoted hne with hbefore | hy
      · obtain ⟨b, x, hx, hreach⟩ := h.reached.mp hbefore
        by_cases hb : b = a
        · subst hb
          exact ⟨b, y, Scene.activation_put_self .., hstill x hx hreach⟩
        · exact ⟨b, x, (σ.activation_put_of_ne hb y m).trans hx, hreach⟩
      · exact ⟨a, y, Scene.activation_put_self .., hy⟩
    · rintro ⟨b, z, hz, hreach⟩
      by_cases hb : b = a
      · subst hb
        rw [Scene.activation_put_self] at hz
        cases hz
        exact hreaches hreach
      · rw [σ.activation_put_of_ne hb] at hz
        have hbefore := h.reached.mpr ⟨b, z, hz, hreach⟩
        exact (hkeeps.noted hbefore).symm ▸ hbefore
  received b z given hz hgiven := by
    by_cases hb : b = a
    · subst hb
      rw [Scene.activation_put_self] at hz
      cases hz
      exact hreceived given hgiven
    · rw [σ.activation_put_of_ne hb] at hz
      exact (h.received b z given hz hgiven).keeps hkeeps
  grounded b z hz := by
    by_cases hb : b = a
    · subst hb
      rw [Scene.activation_put_self] at hz
      cases hz
      exact hgrounded
    · rw [σ.activation_put_of_ne hb] at hz
      exact h.grounded b z hz

/-- A call changes that does not get as far as the rule meanwhile, nor further. -/
theorem put_silent (h : w.InOrder f σ) (hspares : w.Spares σ.machine m) (hf : f.holds m)
    (hreaches : y.Reaches w.cell ↔ ∃ x, σ.activation a = some x ∧ x.Reaches w.cell)
    (hreceived : ∀ given, y.Received w.cell given →
      ∃ x, σ.activation a = some x ∧ x.Received w.cell given)
    (hgrounded : w.Grounded f y) : w.InOrder f (σ.put a y m) := by
  refine h.put hf (hspares.regular h.regular) (h.standing.spares hspares) hspares.keeps ?_ ?_ ?_
    ?_ hgrounded
  · exact fun hne ↦ Or.inl (hspares.noted ▸ hne)
  · intro hy
    rw [hspares.noted]
    exact h.reached.mpr ⟨a, hreaches.mp hy⟩
  · exact fun x hx hreach ↦ hreaches.mpr ⟨x, hx, hreach⟩
  · intro given hy
    obtain ⟨x, hx, hgiven⟩ := hreceived given hy
    exact (h.received a x given hx hgiven).keeps hspares.keeps

/-- The machine changes, but no call does. -/
theorem other (h : w.InOrder f σ) (hf : f.holds m) (hstanding : w.Standing f m)
    (hkeeps : w.Keeps σ.machine m) (hnoted : w.noted m = w.noted σ.machine) :
    w.InOrder f ⟨m, σ.activation⟩ where
  holds := hf
  regular := hkeeps.regular h.regular
  standing := hstanding
  reached := by
    rw [hnoted]
    exact h.reached
  received a x given hx hgiven := (h.received a x given hx hgiven).keeps hkeeps
  grounded := h.grounded

/-- A rule begins: one at the cell takes the future, and the first to do so hands the awaitable
over. -/
theorem start (h : w.InOrder f σ) (hx : σ.activation a = some x) {i : ℕ}
    (hr : x.mapper.rules[i]? = some r) (hi : x.progress[i]? = some .waiting)
    (hopens : (w.setting f).opens r σ.machine m) :
    w.InOrder f (σ.put a (x.advance i .computing) m) ∧ w.Keeps σ.machine m := by
  have hgrounded : w.Grounded f (x.advance i .computing) := (h.grounded a x hx).advance hi _
  have hreceived : ∀ given, (x.advance i .computing).Received w.cell given →
      x.Received w.cell given := by
    intro given hgiven
    rcases hgiven.of_advance hi with hold | ⟨_, _, _, _, hended⟩
    · exact hold
    · cases hended
  by_cases hcell : r.binder.cell = w.cell
  · obtain ⟨v, hrun⟩ := hopens.1 hcell
    obtain ⟨m', v', hrun', _, hnoted, hm, hstanding, hkeeps, hsame⟩ :=
      h.standing.exists_shareOnce h.regular
    cases hrun'.symm.trans hrun
    have hreaches : (x.advance i .computing).Reaches w.cell :=
      ⟨i, r, .computing, hr, hcell, Activation.progress_advance_self hi _, nofun⟩
    refine ⟨h.put (f.steady h.holds hsame) hm hstanding hkeeps (fun _ ↦ Or.inr hreaches)
      (fun _ ↦ ?_) (fun _ _ _ ↦ hreaches)
      (fun given hgiven ↦ (h.received a x given hx (hreceived given hgiven)).keeps hkeeps)
      hgrounded, hkeeps⟩
    rw [hnoted]
    exact List.cons_ne_nil _ _
  · obtain rfl := hopens.2 hcell
    refine ⟨h.put_silent (.refl w _) h.holds ⟨fun hy ↦ ⟨x, hx, ?_⟩, ?_⟩
      (fun given hgiven ↦ ⟨x, hx, hreceived given hgiven⟩) hgrounded, .refl w _⟩
    · rcases hy.of_advance with hold | ⟨r', hr', hcell'⟩
      · exact hold
      · cases hr.symm.trans hr'
        exact absurd hcell' hcell
    · rintro ⟨z, hz, hreach⟩
      cases hx.symm.trans hz
      exact hreach.advance hi nofun

/-- A rule ends: one at the cell has been given the outcome of the future. -/
theorem finish (h : w.InOrder f σ) (hx : σ.activation a = some x) {i : ℕ}
    (hr : x.mapper.rules[i]? = some r) (hi : x.progress[i]? = some .computing)
    {given result : Outcome} (hgives : (w.setting f).gives r (a ++ [i]) σ given)
    (hspares : w.Spares σ.machine m) (hf : f.holds m) :
    w.InOrder f (σ.put a (x.advance i (.ended given result)) m) := by
  refine h.put hf (hspares.regular h.regular) (h.standing.spares hspares) hspares.keeps ?_ ?_ ?_
    ?_ ((h.grounded a x hx).advance hi _)
  · exact fun hne ↦ Or.inl (hspares.noted ▸ hne)
  · intro hy
    rw [hspares.noted]
    rcases hy.of_advance with hold | ⟨r', hr', hcell⟩
    · exact h.reached.mpr ⟨a, x, hx, hold⟩
    · exact h.reached.mpr ⟨a, x, hx, i, r', _, hr', hcell, hi, nofun⟩
  · intro z hz hreach
    cases hx.symm.trans hz
    exact hreach.advance hi nofun
  · intro o hy
    rcases hy.of_advance hi with hold | ⟨r', _, hr', hcell, hended⟩
    · exact (h.received a x o hx hold).keeps hspares.keeps
    · cases hr.symm.trans hr'
      cases hended
      exact (hgives hcell).keeps hspares.keeps

/-- A call ends. -/
theorem close (h : w.InOrder f σ) (hx : σ.activation a = some x) (o : Outcome)
    (hspares : w.Spares σ.machine m) (hf : f.holds m) : w.InOrder f (σ.put a (x.close o) m) := by
  refine h.put_silent hspares hf ⟨fun hy ↦ ⟨x, hx, hy⟩, ?_⟩ (fun _ hy ↦ ⟨x, hx, hy⟩)
    ((h.grounded a x hx).close o)
  rintro ⟨z, hz, hreach⟩
  cases hx.symm.trans hz
  exact hreach

/-- What becomes of the facts when the target of a call is made. -/
theorem holds_construct (h : w.InOrder f σ) (hx : σ.activation a = some x)
    {result : Except Raised Value} {s : Store}
    (hmade : Action.construct x.mapper.target σ.machine.store = (result, s)) :
    w.Spares σ.machine { σ.machine with store := s } ∧ f.holds { σ.machine with store := s } := by
  have hbelow := Action.sameBelow_construct x.mapper.target σ.machine.store
  obtain ⟨_, ⟨hmakes, _⟩, _⟩ := (h.grounded a x hx).admitted
  have hf := hmakes σ.machine h.holds
  rw [hmade] at hbelow hf
  exact ⟨spares_of_sameBelow hbelow, hf⟩

/-- Steps keep the order, and what has been handed over stays so. -/
theorem step (h : w.InOrder f σ) (hbody : w.isRun = true → w.Discreet f w.body)
    (hstep : (w.setting f).Step σ τ) : w.InOrder f τ ∧ w.Keeps σ.machine τ.machine := by
  cases hstep with
  | @other m hquiet =>
    rcases hquiet with ⟨hspares, hf⟩ | hmoves
    · exact ⟨h.other (hf h.holds) (h.standing.spares hspares) hspares.keeps hspares.noted,
        hspares.keeps⟩
    · have hne : w.noted σ.machine ≠ [] := by
        obtain ⟨_, _, _, _, hmem, _⟩ := hmoves
        exact List.ne_nil_of_mem hmem
      obtain ⟨hstanding, hkeeps, hf⟩ := h.standing.taskMoves hbody h.regular h.holds hmoves
      exact ⟨h.other hf hstanding hkeeps (hkeeps.noted hne), hkeeps⟩
  | @call a mapper kind source ha hawaited hadmits =>
    refine ⟨h.put_silent (.refl w _) h.holds
      (iff_of_false (Activation.not_reaches_of_nil rfl) ?_) ?_ ⟨hadmits, nofun, Or.inl rfl⟩,
      .refl w _⟩
    · rintro ⟨z, hz, _⟩
      exact absurd (ha.symm.trans hz) (Option.some_ne_none z).symm
    · exact fun given hgiven ↦ absurd hgiven.reaches (Activation.not_reaches_of_nil rfl)
  | @absent a x hx hnew hsource => exact ⟨h.close hx _ (.refl w _) h.holds, .refl w _⟩
  | @unmade a x e s hx hnew hsource hmade =>
    obtain ⟨hspares, hf⟩ := h.holds_construct hx hmade
    exact ⟨h.close hx _ hspares hf, hspares.keeps⟩
  | @begin a x target built hx hnew hsource hmade =>
    obtain ⟨hspares, hf⟩ := h.holds_construct hx hmade
    have hnever := x.not_reaches_begun ⟨target, σ.machine.store.records.size, built⟩ w.cell
    refine ⟨h.put_silent hspares hf (iff_of_false hnever ?_) (fun given hgiven ↦ ?_)
      ⟨(h.grounded a x hx).admitted, ?_, Or.inr ⟨hsource, _, rfl⟩⟩, hspares.keeps⟩
    · rintro ⟨z, hz, hreach⟩
      cases hx.symm.trans hz
      exact Activation.not_reaches_of_nil (h.progress_eq_nil hx hnew) hreach
    · exact absurd hgiven.reaches hnever
    · rintro _ ⟨⟩
      exact ⟨σ.machine, built, h.holds, hmade⟩
  | @start a x i r m hx hopen hr hi hopens => exact h.start hx hr hi hopens
  | @finish a x t i r given result m hx hopen ht hr hi hgives hrun =>
    have hf := (h.grounded a x hx).holds_complete ht hr h.holds hrun
    obtain ⟨s, rfl, hbelow⟩ := r.sameBelow_complete t.target x.kind given hrun
    have hspares : w.Spares σ.machine { σ.machine with store := s } := spares_of_sameBelow hbelow
    exact ⟨h.finish hx hr hi hgives hspares hf, hspares.keeps⟩
  | @conclude a x o log hx hopen ho =>
    have hbelow : σ.machine.store.SameBelow 0 { σ.machine.store with log := log } :=
      ⟨rfl, rfl, rfl, rfl, rfl, rfl, rfl, rfl, le_rfl, fun _ _ ↦ rfl⟩
    exact ⟨h.close hx o (spares_of_sameBelow hbelow) (f.steady h.holds rfl),
      (spares_of_sameBelow hbelow).keeps⟩

theorem run (h : w.InOrder f σ) (hbody : w.isRun = true → w.Discreet f w.body)
    (hrun : (w.setting f).Run σ τ) : w.InOrder f τ ∧ w.Keeps σ.machine τ.machine := by
  induction hrun with
  | refl => exact ⟨h, .refl w _⟩
  | tail _ hstep ih =>
    obtain ⟨hlast, hkeeps⟩ := ih.1.step hbody hstep
    exact ⟨hlast, ih.2.trans hkeeps⟩

end InOrder

/-! ### Computes in scenes -/

/-- Neither mappers at the cell nor others touch the awaitable: a rule is at the cell, or its
compute leaves the awaitable alone, with whichever of the sources it is called. -/
def Minds (w : OneShot) (f : Footing) (sources : Set Value) (kind : Mapper.Kind) (r : Rule) :
    Prop :=
  r.binder.cell = w.cell ∨ ∀ source ∈ sources, w.Ignores f kind r source

/-- A process waits for the one future that has been noted, or has taken its outcome. -/
def Waits (w : OneShot) (m : Machine) (q : Proc) : Prop :=
  ∃ f i, w.noted m = [f] ∧ (f = .awaitable .task i ∨ f = .awaitable .future i) ∧
    (q = .awaiting i .done ∨ ∃ o, q = .settled o ∧ m.future? i = some o)

theorem evaluate_eq (hcell : r.binder.cell = w.cell) (hr : r.compute = .literal w.value)
    (source : Value) :
    r.evaluate source = (Rule.shareOnce w.cell w.value).andThen Compute.await := by
  rw [Rule.evaluate, Rule.obtain, hr, ← hcell]
  rfl

/-- What has been noted is waited for. -/
theorem waits_of_run_await {v : Value} (hv : ∃ i, v = .awaitable .task i ∨ v = .awaitable .future i)
    (hnoted : w.noted m = [v]) {m' : Machine} {q : Proc}
    (hrun : m.run (Compute.await v) = (m', q)) :
    m' = m ∧ w.Waits m q := by
  obtain ⟨i, hv⟩ := hv
  rcases Machine.execWith_await_future (Machine.exec (Machine.depthLimit - 1)) m hv with
    ⟨o, hout, hawait⟩ | hawait
  · cases hawait.symm.trans hrun
    exact ⟨rfl, v, i, hnoted, hv, Or.inr ⟨o, rfl, hout⟩⟩
  · cases hawait.symm.trans hrun
    exact ⟨rfl, v, i, hnoted, hv, Or.inl rfl⟩

variable {source : Value} {sources : Set Value}

/-- The compute of a rule at the cell waits for the one future. -/
theorem serves_shared (hbody : w.isRun = true → w.Discreet f w.body)
    (hcell : r.binder.cell = w.cell) (hr : r.compute = .literal w.value) :
    (w.setting f).Serves (w.InOrder f) a r (r.evaluate source) := by
  refine ⟨fun q σ ↦ w.Waits σ.machine q, ⟨?_, ?_, ?_⟩, ?_⟩
  · rintro q σ τ ⟨v, i, hnoted, hv, hq⟩ hσ hbeside
    obtain ⟨_, hkeeps⟩ := hσ.run hbody hbeside.run
    refine ⟨v, i, (hkeeps.noted (hnoted ▸ List.cons_ne_nil v [])).trans hnoted, hv, ?_⟩
    exact hq.imp_right fun ⟨o, ho, hout⟩ ↦ ⟨o, ho, hkeeps.filled i o hout⟩
  · rintro q q' σ m ⟨v, i, hnoted, hv, rfl | ⟨o, rfl, _⟩⟩ _ hmove
    · cases hmove with
      | receive hout hrun =>
        cases hrun
        exact ⟨σ, .refl a σ, rfl, v, i, hnoted, hv, Or.inr ⟨_, rfl, hout⟩⟩
    · exact absurd rfl (hmove.ne_settled o)
  · rintro q σ ⟨v, i, hnoted, hv, hq⟩ _ o rfl _
    rcases hq with hq | ⟨o', ho, hout⟩
    · cases hq
    · cases ho
      exact ⟨v, i, hnoted, hv, hout⟩
  · intro σ m q hσ _ hrun
    obtain ⟨m₁, v, hshare, hv, hnoted, _⟩ := hσ.standing.exists_shareOnce hσ.regular
    rw [evaluate_eq hcell hr, Prog.andThen, Machine.run_bind, hshare, Machine.goOn] at hrun
    refine ⟨m₁, ⟨fun _ ↦ ⟨v, hshare⟩, fun hne ↦ absurd hcell hne⟩, ?_⟩
    rintro τ _ rfl _
    obtain ⟨rfl, hwaits⟩ := waits_of_run_await hv hnoted hrun
    exact ⟨τ, .refl a τ, rfl, hwaits⟩

/-- Other computes change scenes in ways that leave the awaitable alone. -/
theorem Ignores.serves (hcell : r.binder.cell ≠ w.cell)
    (h : w.Ignores f .asynchronous r source) :
    (w.setting f).Serves (w.InOrder f) a r (r.evaluate source) := by
  have hdiscreet : w.Discreet f (r.evaluate source) := h
  have hstep : ∀ {σ : Scene} {m : Machine}, w.Spares σ.machine m → f.holds m →
      (w.setting f).Within a σ ⟨m, σ.activation⟩ := fun hspares hf ↦
    .of_step (.other (Or.inl ⟨hspares, fun _ ↦ hf⟩)) fun _ _ ↦ rfl
  refine ⟨fun q _ ↦ (r.evaluate source).Remains f q, ⟨?_, ?_, ?_⟩, ?_⟩
  · exact fun hq _ _ ↦ hq
  · intro q q' σ m hq hσ hmove
    obtain ⟨hspares, hf, hnext⟩ := hdiscreet.move hq hσ.regular hσ.holds hmove
    exact ⟨_, hstep hspares hf, rfl, hnext⟩
  · exact fun _ _ _ _ hsame ↦ absurd hsame hcell
  · intro σ m q hσ _ hrun
    have hplays : Machine.Plays f (r.evaluate source) σ.machine m q :=
      .begin hσ.regular hσ.holds hrun
    refine ⟨σ.machine, ⟨fun hsame ↦ absurd hsame hcell, fun _ ↦ rfl⟩, fun τ _ hmachine _ ↦ ?_⟩
    obtain ⟨hspares, hf⟩ := hdiscreet _ _ _ hplays
    rw [← hmachine] at hspares
    exact ⟨_, hstep hspares hf, rfl, _, _, hplays⟩

theorem Ignores.servesAtOnce (hcell : r.binder.cell ≠ w.cell)
    (h : w.Ignores f .synchronous r source) :
    (w.setting f).ServesAtOnce (w.InOrder f) a r (r.obtainSync source) := by
  intro σ m q hσ _ hrun
  obtain ⟨m', o, hend, hspares, hf⟩ := h σ.machine hσ.regular hσ.holds
  cases hend.symm.trans hrun
  refine ⟨σ.machine, ⟨fun hsame ↦ absurd hsame hcell, fun _ ↦ rfl⟩, fun τ _ hmachine _ ↦ ?_⟩
  refine ⟨⟨m, τ.activation⟩, o,
    .of_step (.other (Or.inl ⟨hmachine ▸ hspares, fun _ ↦ hf⟩)) fun _ _ ↦ rfl,
    rfl, rfl, fun hsame ↦ absurd hsame hcell, ?_⟩
  rintro v rfl
  exact Rule.isAwaitable_of_obtainSync hrun

/-- Mappers in layers act in scenes that are in order. -/
theorem hosts (hbody : w.isRun = true → w.Discreet f w.body) :
    (w.setting f).Hosts (w.InOrder f) sources (w.Minds f sources) where
  keeps _ _ h hstep := (h.step hbody hstep).1
  count m id := by
    have hbelow : m.store.SameBelow 0 { m.store with nextId := id } :=
      ⟨rfl, rfl, rfl, rfl, rfl, rfl, rfl, rfl, le_rfl, fun _ _ ↦ rfl⟩
    exact Or.inl ⟨spares_of_sameBelow hbelow, fun hf ↦ f.steady hf rfl⟩
  rules _ _ h := h.1
  works := by
    intro mapper kind ⟨_, _, hadmits⟩ r hr hminds a source hsource
    by_cases hcell : r.binder.cell = w.cell
    · obtain ⟨rfl, hcompute⟩ := hadmits r hr hcell
      exact serves_shared hbody hcell hcompute
    · have hignores := hminds.resolve_left hcell source hsource
      cases kind with
      | asynchronous => exact hignores.serves hcell
      | synchronous => exact hignores.servesAtOnce hcell
  passes := by
    intro mapper kind ⟨_, _, hadmits⟩ r hr inner k hcompute
    have hcell : r.binder.cell ≠ w.cell := by
      intro hsame
      have hliteral := hcompute.symm.trans (hadmits r hr hsame).2
      cases k <;> cases hliteral
    exact ⟨fun m ↦ ⟨fun hsame ↦ absurd hsame hcell, fun _ ↦ rfl⟩,
      fun _ _ _ _ _ hsame ↦ absurd hsame hcell⟩

/-! ### Consumed once -/

/-- What a scene tells of an awaitable that is consumed once. -/
structure ConsumedOnce (w : OneShot) (f : Footing) (σ : Scene) : Prop where
  /-- It has been handed over at most once, -/
  once : (w.noted σ.machine).length ≤ 1
  /-- exactly when a call has reached the rule, -/
  reached : w.noted σ.machine ≠ [] ↔ ∃ a x, σ.activation a = some x ∧ x.Reaches w.cell
  /-- which only a call with a source does, and with a target that was made; -/
  called : ∀ a x, σ.activation a = some x → x.Reaches w.cell →
    x.source ≠ .null ∧ ∃ t, x.made = some t
  /-- until then nothing has touched it. -/
  untouched : w.noted σ.machine = [] → w.IsAt .untouched σ.machine
  /-- From then on one task runs it, if it is to be run, and has begun it once or not yet. -/
  task : w.isRun = true → w.noted σ.machine ≠ [] → ∃ i p g, w.noted σ.machine =
    [.awaitable .task i] ∧ σ.machine.tasks[i]? = some p ∧ w.Drives f i p g ∧ w.IsAt g σ.machine
  /-- Whoever uses the rule waits for the one future or takes its outcome, -/
  waits : ∀ (r : Rule) source, r.binder.cell = w.cell → r.compute = .literal w.value →
    ∃ m q, σ.machine.run (r.evaluate source) = (m, q) ∧ w.Waits m q
  /-- so all are given the same, -/
  received : ∀ a x given, σ.activation a = some x → x.Received w.cell given →
    w.HasGiven σ.machine given
  /-- which is what the awaitable ended in. -/
  result : w.isRun = true → ∀ given, w.HasGiven σ.machine given →
    w.body.Remains f (.settled given)

/-- The future is filled with what the awaitable ended in. -/
theorem Standing.remains {m : Machine} {given : Outcome} (h : w.Standing f m)
    (hrun : w.isRun = true) (hgiven : w.HasGiven m given) : w.body.Remains f (.settled given) := by
  obtain ⟨v, i, hnoted, hv, hout⟩ := hgiven
  cases h with
  | kept hnone => simp [hnone] at hnoted
  | own hrun' => cases hrun.symm.trans hrun'
  | @run j p g _ hnoted' hp hfuture hdrives hat =>
    obtain rfl : i = j := by
      rw [hnoted'] at hnoted
      cases hnoted
      rcases hv with hij | hij <;> cases hij
      rfl
    rw [Machine.future?, hfuture] at hout
    cases hdrives with
    | fresh => cases hout
    | @running q hremains => cases q <;> cases hout
    | finished hremains =>
      cases hout
      exact hremains

theorem InOrder.consumedOnce (h : w.InOrder f σ) : w.ConsumedOnce f σ where
  once := h.standing.length_noted_le
  reached := h.reached
  called := by
    intro a x hx hreach
    rcases (h.grounded a x hx).progress with hnil | hmade
    · exact absurd hreach (Activation.not_reaches_of_nil hnil)
    · exact hmade
  untouched hnone := by
    cases h.standing with
    | kept _ hat => exact hat
    | own _ hnoted => simp [hnone] at hnoted
    | run _ hnoted => simp [hnone] at hnoted
  task hrun hne := by
    cases h.standing with
    | kept hnone => exact absurd hnone hne
    | own hrun' => cases hrun.symm.trans hrun'
    | run _ hnoted hp _ hdrives hat => exact ⟨_, _, _, hnoted, hp, hdrives, hat⟩
  waits r source hcell hr := by
    obtain ⟨m, v, hshare, hv, hnoted, _⟩ := h.standing.exists_shareOnce h.regular
    rcases hawait : m.run (Compute.await v) with ⟨m', q⟩
    obtain ⟨rfl, hwaits⟩ := waits_of_run_await hv hnoted hawait
    refine ⟨m', q, ?_, hwaits⟩
    rw [evaluate_eq hcell hr, Prog.andThen, Machine.run_bind, hshare, Machine.goOn]
    exact hawait
  received := h.received
  result hrun given hgiven := h.standing.remains hrun hgiven

end OneShot

end Recast
