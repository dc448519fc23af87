import Recast.Proofs.Dispatch

/-!
Programs that keep to their own, put together. What a process does from now on is told by some
discipline or other (`Surroundings.Abides`), so a program that comes down to others of which this
can be told yields what they yield (`Surroundings.Yields.lead`). A program that only reads and
reports when another one has ended takes nothing away (`Surroundings.Yields.echo`). Programs that
race and do not fail each keep their own records, so the race yields what is made of their values
(`Surroundings.Yields.race`).
-/

set_option autoImplicit false

namespace Recast

/-- The records and the declared types are the same. -/
structure Machine.SameRecords (m m' : Machine) : Prop where
  types : m'.store.types = m.store.types
  records : m'.store.records = m.store.records

namespace Machine.SameRecords

variable {m m' : Machine}

theorem spares (h : m.SameRecords m') (kept : Set ℕ) : m.Spares kept m' :=
  ⟨h.types, by rw [h.records], fun _ _ _ ↦ by rw [h.records]⟩

theorem made_eq (h : m.SameRecords m') : m.made m' = ∅ := by
  rw [made, h.records, Set.Ico_self]

theorem made_trans (h : m.SameRecords m') (m'' : Machine) : m'.made m'' = m.made m'' := by
  rw [made, made, h.records]

end Machine.SameRecords

namespace Surroundings

variable {c : Surroundings} {result result' : Machine → Outcome → Prop} {own : Set ℕ}
  {m m' : Machine} {p q : Proc}

/-! ### What a process does from now on -/

/-- The process is in a good state of some discipline. -/
def Abides (c : Surroundings) (result : Machine → Outcome → Prop) (p : Proc) (own : Set ℕ)
    (m : Machine) : Prop :=
  ∃ good, c.Discipline result good ∧ good p own m

/-- To be in such a state is a discipline itself. -/
theorem discipline_abides (c : Surroundings) (result : Machine → Outcome → Prop) :
    c.Discipline result (c.Abides result) where
  undisturbed := by
    rintro p own m m' ⟨good, hgood, h⟩ hm hm' hspares
    exact ⟨good, hgood, hgood.undisturbed h hm hm' hspares⟩
  move := by
    rintro p q own m m' ⟨good, hgood, h⟩ hm hmove
    obtain ⟨hholds, hspares, hnext⟩ := hgood.move h hm hmove
    exact ⟨hholds, hspares, good, hgood, hnext⟩
  ended := by
    rintro o own m ⟨good, hgood, h⟩ hm
    exact hgood.ended h hm

theorem Yields.abides {p : Prog} (h : c.Yields result p) (hm : c.holds m) :
    c.Abides result (.fresh p) ∅ m := by
  obtain ⟨good, hgood, hstart⟩ := h
  exact ⟨good, hgood, hstart m hm⟩

theorem Discipline.mono {good : Proc → Set ℕ → Machine → Prop} (hgood : c.Discipline result good)
    (hresult : ∀ m o, c.holds m → result m o → result' m o) : c.Discipline result' good :=
  ⟨hgood.undisturbed, hgood.move, fun h hm ↦ hresult _ _ hm (hgood.ended h hm)⟩

theorem Yields.mono {p : Prog} (h : c.Yields result p)
    (hresult : ∀ m o, c.holds m → result m o → result' m o) : c.Yields result' p := by
  obtain ⟨good, hgood, hstart⟩ := h
  exact ⟨good, hgood.mono hresult, hstart⟩

/-- The program has not begun, or its process is in a good state of some discipline. -/
def Beginning (c : Surroundings) (result : Machine → Outcome → Prop) (p : Prog) (q : Proc)
    (own : Set ℕ) (m : Machine) : Prop :=
  q = .fresh p ∧ own = ∅ ∨ c.Abides result q own m

/-- What a program does is told by what it does after its first move. -/
theorem Yields.of_run {p : Prog} (h : ∀ m, c.holds m → c.holds (m.run p).1 ∧
      m.Spares (c.others ∅) (m.run p).1 ∧
      c.Abides result (m.run p).2 (m.made (m.run p).1) (m.run p).1) : c.Yields result p := by
  have hdisc := c.discipline_abides result
  refine ⟨c.Beginning result p, ⟨?_, ?_, ?_⟩, fun m hm ↦ Or.inl ⟨rfl, rfl⟩⟩
  · rintro q own m m' (hfresh | hq) hm hm' hspares
    · exact Or.inl hfresh
    · exact Or.inr (hdisc.undisturbed hq hm hm' hspares)
  · rintro q r own m m' (⟨rfl, rfl⟩ | hq) hm hmove
    · cases hmove with
      | start hrun =>
        obtain ⟨hholds, hspares, hnext⟩ := h m hm
        rw [hrun] at hholds hspares hnext
        rw [Set.empty_union]
        exact ⟨hholds, hspares, Or.inr hnext⟩
    · obtain ⟨hholds, hspares, hnext⟩ := hdisc.move hq hm hmove
      exact ⟨hholds, hspares, Or.inr hnext⟩
  · rintro o own m (⟨hfresh, _⟩ | ho) hm
    · cases hfresh
    · exact hdisc.ended ho hm

/-- A program yields what it comes down to, wherever it is run, if no record changes before. -/
theorem Yields.lead {p : Prog} (h : ∀ m, c.holds m → ∃ m₁ p₁, m.run p = m₁.run p₁ ∧ c.holds m₁ ∧
      m.SameRecords m₁ ∧ c.Yields result p₁) : c.Yields result p := by
  refine .of_run fun m hm ↦ ?_
  obtain ⟨m₁, p₁, hrun, hm₁, hsame, hp₁⟩ := h m hm
  obtain ⟨hholds, hspares, hnext⟩ :=
    (c.discipline_abides result).move (hp₁.abides hm₁) hm₁ (.start rfl)
  rw [Set.empty_union, hsame.made_trans] at hnext
  rw [hrun]
  exact ⟨hholds, (hsame.spares _).trans hspares, hnext⟩

/-! ### What follows -/

/-- The process is followed by the program, or it has ended and that has followed. -/
def Echoed (good : Proc → Set ℕ → Machine → Prop) (f : Outcome → Prog) (q : Proc) (own : Set ℕ)
    (m : Machine) : Prop :=
  (∃ r, q = r.bind f ∧ good r own m) ∨ ∃ o, q = .settled o ∧ good q own m

/-- What ends at once in the outcome that it follows, and changes no record, can follow. -/
theorem Yields.echo {p : Prog} (h : c.Yields result p) {f : Outcome → Prog}
    (hf : ∀ m o, c.holds m → result m o →
      ∃ m', m.run (f o) = (m', .settled o) ∧ c.holds m' ∧ m.SameRecords m') :
    c.Yields result (p.bind f) := by
  obtain ⟨good, hgood, hstart⟩ := h
  refine ⟨Echoed good f, ⟨?_, ?_, ?_⟩, fun m hm ↦ Or.inl ⟨.fresh p, rfl, hstart m hm⟩⟩
  · rintro q own m m' (⟨r, rfl, hr⟩ | ⟨o, rfl, ho⟩) hm hm' hspares
    · exact Or.inl ⟨r, rfl, hgood.undisturbed hr hm hm' hspares⟩
    · exact Or.inr ⟨o, rfl, hgood.undisturbed ho hm hm' hspares⟩
  · rintro q r own m m' (⟨s, rfl, hs⟩ | ⟨o, rfl, _⟩) hm hmove
    · obtain ⟨m₁, s₁, hholds, hspares, hnext, ⟨o, rfl, hrun⟩ | ⟨rfl, rfl⟩⟩ :=
        hgood.move_bind hs hm hmove
      · obtain ⟨m₂, hrun', hholds', hsame⟩ := hf m₁ o hholds (hgood.ended hnext hholds)
        cases hrun'.symm.trans hrun
        have hmade : m.made m' = m.made m₁ := by rw [Machine.made, Machine.made, hsame.records]
        rw [hmade]
        exact ⟨hholds', hspares.trans (hsame.spares _),
          Or.inr ⟨o, rfl, hgood.undisturbed hnext hholds hholds' (hsame.spares _)⟩⟩
      · exact ⟨hholds, hspares, Or.inl ⟨s₁, rfl, hnext⟩⟩
    · exact absurd rfl (hmove.ne_settled o)
  · rintro o own m (⟨r, hr, _⟩ | ⟨_, _, ho⟩) hm
    · exact absurd hr.symm (r.bind_ne_settled f o)
    · exact hgood.ended ho hm

/-! ### Side by side -/

/-- Processes side by side are in good states of their disciplines, each with records of its own. -/
inductive Abreast (c : Surroundings) :
    List (Machine → Outcome → Prop) → Set ℕ → Machine → List Proc → Prop
  | nil {m : Machine} : Abreast c [] ∅ m []
  | cons {result : Machine → Outcome → Prop} {results : List (Machine → Outcome → Prop)}
      {own own' : Set ℕ} {m : Machine} {p : Proc} {ps : List Proc} (h : c.Abides result p own m)
      (hown : own ⊆ Set.Ico c.base m.store.records.size) (hapart : Disjoint own own')
      (hrest : Abreast c results own' m ps) :
      Abreast c (result :: results) (own ∪ own') m (p :: ps)

namespace Abreast

variable {results : List (Machine → Outcome → Prop)} {ps before after : List Proc}

theorem bounds (h : c.Abreast results own m ps) :
    own ⊆ Set.Ico c.base m.store.records.size := by
  induction h with
  | nil => exact Set.empty_subset _
  | cons _ hown _ _ ih => exact Set.union_subset hown ih

theorem undisturbed (h : c.Abreast results own m ps) (hm : c.holds m) (hm' : c.holds m')
    (hspares : m.Spares own m') : c.Abreast results own m' ps := by
  induction h with
  | nil => exact .nil
  | cons h hown hapart _ ih =>
    exact .cons ((c.discipline_abides _).undisturbed h hm hm'
        (hspares.mono Set.subset_union_left))
      (hown.trans (Set.Ico_subset_Ico_right hspares.size_le)) hapart
      (ih hm (hspares.mono Set.subset_union_right))

theorem subset_others {own' : Set ℕ} (hbounds : own' ⊆ Set.Ico c.base m.store.records.size)
    (hapart : Disjoint own own') : own' ⊆ c.others own :=
  fun _ href ↦ ⟨(hbounds href).1, fun hmem ↦ Set.disjoint_left.mp hapart hmem href⟩

/-- What is made in a move was nobody's before. -/
theorem disjoint_made {own' : Set ℕ} (hbounds : own' ⊆ Set.Ico c.base m.store.records.size)
    (m' : Machine) : Disjoint own' (m.made m') :=
  Set.disjoint_left.mpr fun _ href hmade ↦ absurd (hbounds href).2 (not_lt.mpr hmade.1)

theorem union_made_bounds (hm : c.holds m) (hsize : m.store.records.size ≤ m'.store.records.size)
    (hbounds : own ⊆ Set.Ico c.base m.store.records.size) :
    own ∪ m.made m' ⊆ Set.Ico c.base m'.store.records.size :=
  Set.union_subset (hbounds.trans (Set.Ico_subset_Ico_right hsize))
    (Set.Ico_subset_Ico_left (c.base_le hm))

/-- One of them moves, which leaves the others alone. -/
theorem move (h : c.Abreast results own m (before ++ p :: after)) (hm : c.holds m)
    (hmove : Machine.Move m p m' q) :
    c.holds m' ∧ m.Spares (c.others own) m' ∧
      c.Abreast results (own ∪ m.made m') m' (before ++ q :: after) := by
  induction before generalizing results own with
  | nil =>
    cases h with
    | @cons result results own own' _ _ _ hp hown hapart hrest =>
      obtain ⟨hholds, hspares, hnext⟩ := (c.discipline_abides result).move hp hm hmove
      refine ⟨hholds, hspares.mono (c.others_mono Set.subset_union_left), ?_⟩
      rw [Set.union_right_comm]
      exact .cons hnext (union_made_bounds hm hspares.size_le hown)
        (Set.disjoint_union_left.mpr ⟨hapart, (disjoint_made hrest.bounds m').symm⟩)
        (hrest.undisturbed hm hholds (hspares.mono (subset_others hrest.bounds hapart)))
  | cons b before ih =>
    cases h with
    | @cons result results own own' _ _ _ hb hown hapart hrest =>
      obtain ⟨hholds, hspares, hnext⟩ := ih hrest
      refine ⟨hholds, hspares.mono (c.others_mono Set.subset_union_right), ?_⟩
      rw [Set.union_assoc]
      exact .cons ((c.discipline_abides result).undisturbed hb hm hholds
          (hspares.mono (subset_others hown hapart.symm)))
        (hown.trans (Set.Ico_subset_Ico_right hspares.size_le))
        (Set.disjoint_union_right.mpr ⟨hapart, disjoint_made hown m'⟩) hnext

theorem of_yields {progs : List Prog} (h : List.Forall₂ c.Yields results progs) (hm : c.holds m) :
    c.Abreast results ∅ m (progs.map .fresh) := by
  induction h with
  | nil => exact .nil
  | cons hp _ ih =>
    have hcons := Abreast.cons (hp.abides hm) (Set.empty_subset _) (Set.empty_disjoint ∅) ih
    rwa [Set.empty_union] at hcons

/-- What has ended has ended in a result. -/
theorem exists_result (h : c.Abreast results own m ps) (hm : c.holds m) {o : Outcome}
    (ho : .settled o ∈ ps) : ∃ result ∈ results, result m o := by
  induction h with
  | nil => cases ho
  | cons hp _ _ _ ih =>
    rcases List.mem_cons.mp ho with rfl | hmem
    · exact ⟨_, List.mem_cons_self, (c.discipline_abides _).ended hp hm⟩
    · obtain ⟨result, hresult, hended⟩ := ih hm hmem
      exact ⟨result, List.mem_cons_of_mem _ hresult, hended⟩

theorem values {vs : List Value} (h : c.Abreast results own m ((vs.map Except.ok).map .settled))
    (hm : c.holds m) : List.Forall₂ (fun result v ↦ result m (.ok v)) results vs := by
  induction vs generalizing results own with
  | nil =>
    cases h
    exact .nil
  | cons v vs ih =>
    cases h with
    | cons hv _ _ hrest => exact .cons ((c.discipline_abides _).ended hv hm) (ih hrest)

end Abreast

/-! ### Races that nobody loses -/

/-- The parts of the race are side by side, or they have all ended, and what follows has as well. -/
def Contest (c : Surroundings) (result : Machine → Outcome → Prop)
    (results : List (Machine → Outcome → Prop)) (k : Except Raised (List Value) → Prog) (q : Proc)
    (own : Set ℕ) (m : Machine) : Prop :=
  ∃ parts, c.Abreast results own m parts ∧ (q = .racing parts k ∨
    ∃ vs o, parts = (vs.map Except.ok).map .settled ∧ q = .settled o ∧ ∀ m', c.holds m' →
      List.Forall₂ (fun r v ↦ r m' (.ok v)) results vs → result m' o)

section Race

variable {results : List (Machine → Outcome → Prop)} {k : Except Raised (List Value) → Prog}
  (hok : ∀ r ∈ results, ∀ m e, ¬ r m (.error e))
  (hk : ∀ m vs, c.holds m → List.Forall₂ (fun r v ↦ r m (.ok v)) results vs →
    ∃ m' o, m.run (k (.ok vs)) = (m', .settled o) ∧ c.holds m' ∧ m.SameRecords m' ∧
      ∀ m'', c.holds m'' → List.Forall₂ (fun r v ↦ r m'' (.ok v)) results vs → result m'' o)

include hok hk

theorem discipline_contest : c.Discipline result (c.Contest result results k) where
  undisturbed := by
    rintro q own m m' ⟨parts, hparts, hq⟩ hm hm' hspares
    exact ⟨parts, hparts.undisturbed hm hm' hspares, hq⟩
  move := by
    rintro q r own m m' ⟨parts, hparts, rfl | ⟨vs, o, _, rfl, _⟩⟩ hm hmove
    · cases hmove with
      | contender hpart =>
        obtain ⟨hholds, hspares, hnext⟩ := hparts.move hm hpart
        exact ⟨hholds, hspares, _, hnext, Or.inl rfl⟩
      | lose he _ =>
        obtain ⟨r, hr, hfails⟩ := hparts.exists_result hm (Proc.mem_of_firstFault? he)
        exact absurd hfails (hok r hr m _)
      | win hvs hrun =>
        obtain rfl := Proc.values?_eq_some_iff.mp hvs
        obtain ⟨m₁, o, hrun', hholds, hsame, hresult⟩ := hk m _ hm (hparts.values hm)
        cases hrun'.symm.trans hrun
        rw [hsame.made_eq, Set.union_empty]
        exact ⟨hholds, hsame.spares _, _, hparts.undisturbed hm hholds (hsame.spares _),
          Or.inr ⟨_, o, rfl, rfl, hresult⟩⟩
    · exact absurd rfl (hmove.ne_settled o)
  ended := by
    rintro o own m ⟨parts, hparts, hq | ⟨vs, o', rfl, ho, hresult⟩⟩ hm
    · cases hq
    · cases ho
      exact hresult m hm (hparts.values hm)

/-- A race of programs that do not fail yields what follows from their values. -/
theorem Yields.race {progs : List Prog} (hne : progs ≠ [])
    (h : List.Forall₂ c.Yields results progs) : c.Yields result (.race progs k) := by
  refine .of_run fun m hm ↦ ?_
  rw [Machine.run_race hne, m.made_self]
  exact ⟨hm, .refl m _, c.Contest result results k, discipline_contest hok hk, _,
    .of_yields h hm, Or.inl rfl⟩

end Race

end Surroundings

end Recast
