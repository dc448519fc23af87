import Recast.Proofs.Move
import Recast.Proofs.Landing
import Mathlib.Data.Set.Lattice
import Mathlib.Order.CompletePartialOrder
import Mathlib.Order.Interval.Set.LinearOrder

/-!
Processes that run beside others. A process owns the records that it has made; everyone else leaves
these alone, and it leaves alone what it does not own (`Surroundings.Discipline`). A program yields
a result when its process keeps to this in every order of moves and its outcome is such a result
(`Surroundings.Yields`); what such a process yields does not depend on who moves when
(`Surroundings.Discipline.run`).
-/

set_option autoImplicit false

namespace Recast

/-! ### Changes -/

/-- The stores differ only in records from a position on, in the numbers handed out and in what is
noted of the run. -/
structure Store.SameBelow (base : ℕ) (s s' : Store) : Prop where
  now : s'.now = s.now
  types : s'.types = s.types
  bindings : s'.bindings = s.bindings
  shared : s'.shared = s.shared
  coroutines : s'.coroutines = s.coroutines
  futures : s'.futures = s.futures
  customs : s'.customs = s.customs
  lookups : s'.lookups = s.lookups
  size_le : s.records.size ≤ s'.records.size
  records : ∀ ref < base, s'.records[ref]? = s.records[ref]?

namespace Store

theorem SameBelow.refl (base : ℕ) (s : Store) : SameBelow base s s :=
  ⟨rfl, rfl, rfl, rfl, rfl, rfl, rfl, rfl, le_rfl, fun _ _ ↦ rfl⟩

theorem SameBelow.trans {base : ℕ} {s s' s'' : Store} (h : SameBelow base s s')
    (h' : SameBelow base s' s'') : SameBelow base s s'' where
  now := h'.now.trans h.now
  types := h'.types.trans h.types
  bindings := h'.bindings.trans h.bindings
  shared := h'.shared.trans h.shared
  coroutines := h'.coroutines.trans h.coroutines
  futures := h'.futures.trans h.futures
  customs := h'.customs.trans h.customs
  lookups := h'.lookups.trans h.lookups
  size_le := h.size_le.trans h'.size_le
  records ref href := (h'.records ref href).trans (h.records ref href)

theorem SameBelow.mono {base lower : ℕ} {s s' : Store} (h : SameBelow base s s')
    (hle : lower ≤ base) : SameBelow lower s s' :=
  { h with records := fun ref href ↦ h.records ref (href.trans_le hle) }

theorem sameBelow_count (base : ℕ) (s : Store) :
    SameBelow base s { s with nextId := s.nextId + 1 } :=
  ⟨rfl, rfl, rfl, rfl, rfl, rfl, rfl, rfl, le_rfl, fun _ _ ↦ rfl⟩

theorem sameBelow_put {base : ℕ} {p : Spot} (h : base ≤ p.ref) (s : Store) (v : Value) :
    SameBelow base s (s.put p v) := by
  have hrecords : ∀ ref < base, (s.put p v).records[ref]? = s.records[ref]? :=
    fun ref href ↦ records_put_of_ne s p v (by omega)
  have hsize := (size_records_put s p v).ge
  unfold put at hrecords hsize ⊢
  split_ifs at hrecords hsize ⊢ <;> exact ⟨rfl, rfl, rfl, rfl, rfl, rfl, rfl, rfl, hsize, hrecords⟩

end Store

namespace Machine

/-- The records of a set stay as they are, and the declared types as well. -/
structure Spares (m : Machine) (kept : Set ℕ) (m' : Machine) : Prop where
  types : m'.store.types = m.store.types
  size_le : m.store.records.size ≤ m'.store.records.size
  records : ∀ ref ∈ kept, ref < m.store.records.size →
    m'.store.records[ref]? = m.store.records[ref]?

theorem Spares.refl (m : Machine) (kept : Set ℕ) : m.Spares kept m := ⟨rfl, le_rfl, fun _ _ _ ↦ rfl⟩

theorem Spares.trans {m m' m'' : Machine} {kept : Set ℕ} (h : m.Spares kept m')
    (h' : m'.Spares kept m'') : m.Spares kept m'' where
  types := h'.types.trans h.types
  size_le := h.size_le.trans h'.size_le
  records ref hkept href :=
    (h'.records ref hkept (href.trans_le h.size_le)).trans (h.records ref hkept href)

theorem Spares.mono {m m' : Machine} {kept fewer : Set ℕ} (h : m.Spares kept m')
    (hfewer : fewer ⊆ kept) : m.Spares fewer m' :=
  ⟨h.types, h.size_le, fun ref hmem ↦ h.records ref (hfewer hmem)⟩

theorem Spares.field? {m m' : Machine} {kept : Set ℕ} (h : m.Spares kept m') {ref : ℕ}
    (hkept : ref ∈ kept) (href : ref < m.store.records.size) (name : String) :
    m'.store.field? ref name = m.store.field? ref name := by
  rw [Store.field?, Store.field?, h.records ref hkept href]

/-- The records that were made in between. -/
def made (m m' : Machine) : Set ℕ := Set.Ico m.store.records.size m'.store.records.size

theorem made_self (m : Machine) : m.made m = ∅ := Set.Ico_self _

theorem made_union_made {m m' m'' : Machine} (h : m.store.records.size ≤ m'.store.records.size)
    (h' : m'.store.records.size ≤ m''.store.records.size) :
    m.made m' ∪ m'.made m'' = m.made m'' :=
  Set.Ico_union_Ico_eq_Ico h h'

end Machine

/-! ### Keeping to one's own -/

/-- What a process may rely on wherever it is run: a fact of the machine that no change above a
position takes away. Records from there on belong to those who make them. -/
structure Surroundings where
  base : ℕ
  holds : Machine → Prop
  base_le : ∀ {m : Machine}, holds m → base ≤ m.store.records.size
  stable : ∀ {m : Machine} {s : Store}, holds m → m.store.SameBelow base s →
    holds { m with store := s }

namespace Surroundings

variable {c : Surroundings} {result : Machine → Outcome → Prop}

/-- The records that someone else may own. -/
def others (c : Surroundings) (own : Set ℕ) : Set ℕ := {ref | c.base ≤ ref ∧ ref ∉ own}

theorem others_mono (c : Surroundings) {own more : Set ℕ} (h : own ⊆ more) :
    c.others more ⊆ c.others own :=
  fun _ href ↦ ⟨href.1, fun hmem ↦ href.2 (h hmem)⟩

/-- What was made on the way was nobody's before. -/
theorem spares_trans {m m' m'' : Machine} {own : Set ℕ} (h : m.Spares (c.others own) m')
    (h' : m'.Spares (c.others (own ∪ m.made m')) m'') : m.Spares (c.others own) m'' where
  types := h'.types.trans h.types
  size_le := h.size_le.trans h'.size_le
  records ref hkept href := by
    have hother : ref ∈ c.others (own ∪ m.made m') := by
      refine ⟨hkept.1, ?_⟩
      rintro (hown | hnew)
      · exact hkept.2 hown
      · exact absurd href (not_lt.mpr hnew.1)
    exact (h'.records ref hother (href.trans_le h.size_le)).trans (h.records ref hkept href)

/-- A process is in a good state when it can be left alone, as long as its own records are, and when
it can move, which leaves the records of others alone. -/
structure Discipline (c : Surroundings) (result : Machine → Outcome → Prop)
    (good : Proc → Set ℕ → Machine → Prop) : Prop where
  undisturbed {p : Proc} {own : Set ℕ} {m m' : Machine} (h : good p own m) (hm : c.holds m)
    (hm' : c.holds m') (hspares : m.Spares own m') : good p own m'
  move {p q : Proc} {own : Set ℕ} {m m' : Machine} (h : good p own m) (hm : c.holds m)
    (hmove : Machine.Move m p m' q) :
    c.holds m' ∧ m.Spares (c.others own) m' ∧ good q (own ∪ m.made m') m'
  ended {o : Outcome} {own : Set ℕ} {m : Machine} (h : good (.settled o) own m) (hm : c.holds m) :
    result m o

/-- Wherever the program is started, it keeps to its own and ends, if it does, in a result. -/
def Yields (c : Surroundings) (result : Machine → Outcome → Prop) (p : Prog) : Prop :=
  ∃ good, c.Discipline result good ∧ ∀ m, c.holds m → good (.fresh p) ∅ m

/-- The ways in which a process that owns records can go on: it moves, or others do. -/
inductive Run (c : Surroundings) (own : Set ℕ) (m : Machine) (p : Proc) :
    Set ℕ → Machine → Proc → Prop
  | refl : Run c own m p own m p
  | move {own' : Set ℕ} {m' m'' : Machine} {q r : Proc} (h : Run c own m p own' m' q)
      (hmove : Machine.Move m' q m'' r) : Run c own m p (own' ∪ m'.made m'') m'' r
  | other {own' : Set ℕ} {m' m'' : Machine} {q : Proc} (h : Run c own m p own' m' q)
      (hm'' : c.holds m'') (hspares : m'.Spares own' m'') : Run c own m p own' m'' q

/-- Moves one after the other are a way to go on. -/
theorem Run.moves {own own' : Set ℕ} {m m' : Machine} {p q : Proc} (h : c.Run own m p own' m' q)
    {t : Machine × Proc} (hmoves : Machine.Moves (m', q) t) :
    ∃ own'', c.Run own m p own'' t.1 t.2 := by
  induction hmoves with
  | refl => exact ⟨own', h⟩
  | tail _ hmove ih =>
    obtain ⟨own'', hrun⟩ := ih
    exact ⟨_, hrun.move hmove⟩

theorem Discipline.run {good : Proc → Set ℕ → Machine → Prop} (hgood : c.Discipline result good)
    {own own' : Set ℕ} {m m' : Machine} {p q : Proc} (h : good p own m) (hm : c.holds m)
    (hrun : c.Run own m p own' m' q) : good q own' m' ∧ c.holds m' := by
  induction hrun with
  | refl => exact ⟨h, hm⟩
  | move _ hmove ih =>
    obtain ⟨hholds, _, hnext⟩ := hgood.move ih.1 ih.2 hmove
    exact ⟨hnext, hholds⟩
  | other _ hm'' hspares ih => exact ⟨hgood.undisturbed ih.1 ih.2 hm'' hspares, hm''⟩

/-- A move of a process that is followed by a program: the process moves, if it has not ended, and
when it has ended the program runs. -/
theorem Discipline.move_bind {good : Proc → Set ℕ → Machine → Prop}
    (hgood : c.Discipline result good) {f : Outcome → Prog} {p q : Proc} {own : Set ℕ}
    {m m' : Machine} (h : good p own m) (hm : c.holds m) (hmove : Machine.Move m (p.bind f) m' q) :
    ∃ m₁ p₁, c.holds m₁ ∧ m.Spares (c.others own) m₁ ∧ good p₁ (own ∪ m.made m₁) m₁ ∧
      ((∃ o, p₁ = .settled o ∧ m₁.run (f o) = (m', q)) ∨ m' = m₁ ∧ q = p₁.bind f) := by
  rcases hmove.of_bind with ⟨o, rfl, hrun⟩ | ⟨m₁, p₁, hfirst, hrest⟩
  · refine ⟨m, .settled o, hm, .refl m _, ?_, Or.inl ⟨o, rfl, hrun⟩⟩
    rwa [m.made_self, Set.union_empty]
  · obtain ⟨hholds, hspares, hnext⟩ := hgood.move h hm hfirst
    refine ⟨m₁, p₁, hholds, hspares, hnext, ?_⟩
    by_cases hended : ∃ o, p₁ = .settled o
    · obtain ⟨o, rfl⟩ := hended
      exact Or.inl ⟨o, rfl, hrest⟩
    · rw [Machine.goOn_of_ne fun o ho ↦ hended ⟨o, ho⟩] at hrest
      cases hrest
      exact Or.inr ⟨rfl, rfl⟩

/-! ### Programs that yield -/

/-- Wherever the program is started, it ends at once, and its outcome stays a result as long as the
records that it made are left alone. -/
def EndsIn (c : Surroundings) (result : Machine → Outcome → Prop) (p : Prog) : Prop :=
  ∀ m, c.holds m → ∃ m' o, m.run p = (m', .settled o) ∧ c.holds m' ∧ m.Spares (c.others ∅) m' ∧
    ∀ m'', c.holds m'' → m'.Spares (m.made m') m'' → result m'' o

/-- The program has not begun, or its outcome stays a result as long as the records that it made are
left alone. -/
def AtOnce (c : Surroundings) (result : Machine → Outcome → Prop) (p : Prog) (q : Proc)
    (own : Set ℕ) (m : Machine) : Prop :=
  q = .fresh p ∧ own = ∅ ∨ ∃ o, q = .settled o ∧ ∀ m', c.holds m' → m.Spares own m' → result m' o

theorem EndsIn.discipline {p : Prog} (h : c.EndsIn result p) :
    c.Discipline result (c.AtOnce result p) where
  undisturbed := by
    rintro q own m m' (hfresh | ⟨o, rfl, ho⟩) _ hm' hspares
    · exact Or.inl hfresh
    · exact Or.inr ⟨o, rfl, fun m'' hm'' hspares' ↦ ho m'' hm'' (hspares.trans hspares')⟩
  move := by
    rintro q r own m m' (⟨rfl, rfl⟩ | ⟨o, rfl, _⟩) hm hmove
    · obtain ⟨m₁, o, hrun, hholds, hspares, hresult⟩ := h m hm
      cases hmove with
      | start hstart =>
        obtain ⟨rfl, rfl⟩ := Prod.mk.inj (hrun.symm.trans hstart)
        refine ⟨hholds, hspares, Or.inr ⟨o, rfl, ?_⟩⟩
        intro m'' hm'' hspares'
        rw [Set.empty_union] at hspares'
        exact hresult m'' hm'' hspares'
    · exact absurd rfl (hmove.ne_settled o)
  ended := by
    rintro o own m (⟨hfresh, _⟩ | ⟨o', ho', hresult⟩) hm
    · cases hfresh
    · cases ho'
      exact hresult m hm (.refl m own)

theorem EndsIn.yields {p : Prog} (h : c.EndsIn result p) : c.Yields result p :=
  ⟨_, h.discipline, fun _ _ ↦ Or.inl ⟨rfl, rfl⟩⟩

theorem endsIn_give {v : Value} (h : ∀ m, c.holds m → result m (.ok v)) :
    c.EndsIn result (Prog.give v) :=
  fun m hm ↦ ⟨m, .ok v, rfl, hm, .refl m _, fun m' hm' _ ↦ h m' hm'⟩

theorem endsIn_fail {f : Fault} (h : ∀ m id, c.holds m → result m (.error ⟨id, f⟩)) :
    c.EndsIn result (Prog.fail f) :=
  fun m hm ↦ ⟨_, _, rfl, c.stable hm (Store.sameBelow_count c.base m.store),
    ⟨rfl, le_rfl, fun _ _ _ ↦ rfl⟩, fun m' hm' _ ↦ h m' _ hm'⟩

/-- There is nothing to wait for in a value that is no awaitable. -/
theorem EndsIn.andThen_await {p : Prog} (h : c.EndsIn result p)
    (hresult : ∀ m v, result m (.ok v) → v.isAwaitable = false) :
    c.EndsIn result (p.andThen Compute.await) := by
  intro m hm
  obtain ⟨m', o, hrun, hholds, hspares, ho⟩ := h m hm
  refine ⟨m', o, ?_, hholds, hspares, ho⟩
  rw [Prog.andThen, Machine.run_bind, hrun, Machine.goOn]
  cases o with
  | error e => rfl
  | ok v =>
    have hv := hresult m' v (ho m' hholds (.refl m' _))
    dsimp only
    rw [Compute.await, hv]
    rfl

theorem EndsIn.mono {result' : Machine → Outcome → Prop} {p : Prog} (h : c.EndsIn result p)
    (hresult : ∀ m o, result m o → result' m o) : c.EndsIn result' p := by
  intro m hm
  obtain ⟨m', o, hrun, hholds, hspares, ho⟩ := h m hm
  exact ⟨m', o, hrun, hholds, hspares, fun m'' hm'' hspares' ↦ hresult _ _ (ho m'' hm'' hspares')⟩

/-- The body of a coroutine ends at once, and at most one fault more is made. -/
theorem EndsIn.asCoroutine {p : Prog} (h : c.EndsIn result p) :
    c.EndsIn (fun m o' ↦ ∃ o, result m o ∧ LetOut o o') p.asCoroutine := by
  intro m hm
  obtain ⟨m', o, hrun, hholds, hspares, ho⟩ := h m hm
  obtain ⟨id, o', hguarded, hout⟩ := m'.run_guarded o
  refine ⟨{ m' with store := { m'.store with nextId := id } }, o', ?_,
    c.stable hholds ⟨rfl, rfl, rfl, rfl, rfl, rfl, rfl, rfl, le_rfl, fun _ _ ↦ rfl⟩,
    hspares.trans ⟨rfl, le_rfl, fun _ _ _ ↦ rfl⟩, fun m'' hm'' hspares' ↦ ⟨o, ho m'' hm'' ?_, hout⟩⟩
  · rw [Prog.asCoroutine, Machine.run_bind, hrun, Machine.goOn, hguarded]
  · exact ⟨hspares'.types, hspares'.size_le, hspares'.records⟩
section Wrapped

variable {good : Proc → Set ℕ → Machine → Prop}

/-- The process sleeps first, or it is in a good state. -/
def Asleep (good : Proc → Set ℕ → Machine → Prop) (ms : ℕ) (k : Outcome → Prog) (q : Proc)
    (own : Set ℕ) (m : Machine) : Prop :=
  (q = .fresh (.sleep ms k) ∨ ∃ time, q = .sleeping time k) ∧ own = ∅ ∨ good q own m

theorem Discipline.asleep (hgood : c.Discipline result good) {ms : ℕ} {k : Outcome → Prog}
    (hstart : ∀ m, c.holds m → good (.fresh (k (.ok .null))) ∅ m) :
    c.Discipline result (Asleep good ms k) where
  undisturbed := by
    rintro q own m m' (hwaiting | hq) hm hm' hspares
    · exact Or.inl hwaiting
    · exact Or.inr (hgood.undisturbed hq hm hm' hspares)
  move := by
    rintro q r own m m' (⟨rfl | ⟨time, rfl⟩, rfl⟩ | hq) hm hmove
    · cases hmove with
      | start hrun =>
        cases hrun
        refine ⟨hm, .refl m _, Or.inl ⟨Or.inr ⟨_, rfl⟩, ?_⟩⟩
        rw [m.made_self, Set.union_empty]
    · cases hmove with
      | wake _ hrun =>
        obtain ⟨hholds, hspares, hnext⟩ := hgood.move (hstart m hm) hm (.start hrun)
        exact ⟨hholds, hspares, Or.inr hnext⟩
    · obtain ⟨hholds, hspares, hnext⟩ := hgood.move hq hm hmove
      exact ⟨hholds, hspares, Or.inr hnext⟩
  ended := by
    rintro o own m (⟨hwaiting | ⟨_, hwaiting⟩, _⟩ | ho) hm
    · cases hwaiting
    · cases hwaiting
    · exact hgood.ended ho hm

/-- Sleeping first changes nothing about what a program yields. -/
theorem Yields.sleep {ms : ℕ} {k : Outcome → Prog} (h : c.Yields result (k (.ok .null))) :
    c.Yields result (.sleep ms k) := by
  obtain ⟨good, hgood, hstart⟩ := h
  exact ⟨_, hgood.asleep hstart, fun _ _ ↦ Or.inl ⟨Or.inl rfl, rfl⟩⟩

/-- The process of a coroutine is that of its body, and it ends as the body does. -/
def Guarded (good : Proc → Set ℕ → Machine → Prop) (q : Proc) (own : Set ℕ) (m : Machine) : Prop :=
  (∃ r, q = r.bind Prog.guarded ∧ good r own m) ∨ ∃ o, q = .settled o ∧ good q own m

theorem Discipline.guarded (hgood : c.Discipline result good)
    (hresult : ∀ m e, result m (.error e) → ¬ e.StopsIteration) :
    c.Discipline result (Guarded good) where
  undisturbed := by
    rintro q own m m' (⟨r, rfl, hr⟩ | ⟨o, rfl, ho⟩) hm hm' hspares
    · exact Or.inl ⟨r, rfl, hgood.undisturbed hr hm hm' hspares⟩
    · exact Or.inr ⟨o, rfl, hgood.undisturbed ho hm hm' hspares⟩
  move := by
    rintro q r own m m' (⟨s, rfl, hs⟩ | ⟨o, rfl, _⟩) hm hmove
    · obtain ⟨m₁, s₁, hholds, hspares, hnext, ⟨o, rfl, hrun⟩ | ⟨rfl, rfl⟩⟩ :=
        hgood.move_bind hs hm hmove
      · have hout := hgood.ended hnext hholds
        rw [Prog.guarded_eq fun e he ↦ hresult m₁ e (he ▸ hout), Machine.run_done] at hrun
        cases hrun
        exact ⟨hholds, hspares, Or.inr ⟨o, rfl, hnext⟩⟩
      · exact ⟨hholds, hspares, Or.inl ⟨s₁, rfl, hnext⟩⟩
    · exact absurd rfl (hmove.ne_settled o)
  ended := by
    rintro o own m (⟨r, hr, _⟩ | ⟨_, _, ho⟩) hm
    · exact absurd hr.symm (r.bind_ne_settled _ o)
    · exact hgood.ended ho hm

/-- A coroutine lets out every outcome but the fault by which an iteration stops. -/
theorem Yields.asCoroutine {p : Prog} (h : c.Yields result p)
    (hresult : ∀ m e, result m (.error e) → ¬ e.StopsIteration) :
    c.Yields result p.asCoroutine := by
  obtain ⟨good, hgood, hstart⟩ := h
  exact ⟨_, hgood.guarded hresult, fun m hm ↦ Or.inl ⟨.fresh p, rfl, hstart m hm⟩⟩

end Wrapped

end Surroundings

end Recast
