import Recast.Proofs.Fulfilment

/-!
Which part of a race fails first. Where nothing else goes on, each part of a race is due at a time
of its own and ends as its fate says, whatever the others do (`Rival.Runs`). A race that ends in a
fault ends in that of a part that is due no later than any other part that fails, and it ends when
this part is due (`Rival.comesFirst_of_race`).
-/

set_option autoImplicit false

namespace Recast

theorem Mover.letsRest_proc : proc.LetsRest where
  canMove h m := by
    obtain ⟨o, rfl⟩ := Proc.isOpen_eq_false_iff.mp h
    rfl
  advance h m := by
    obtain ⟨o, rfl⟩ := Proc.isOpen_eq_false_iff.mp h
    rfl
  wake h := by
    obtain ⟨o, rfl⟩ := Proc.isOpen_eq_false_iff.mp h
    rfl

theorem Machine.isBusy_of_canMove {m : Machine} {p : Proc} (h : m.canMove p = true) (began : ℕ) :
    m.isBusy (sole p began) = true := by
  simp [isBusy, sole, anyCanMove, h]

/-- The company of a run that is by itself and has left nothing behind. -/
def Store.company (s : Store) : Company where
  base := s.records.size
  holds m := s.Stands m ∧ m.strays = []
  base_le hm := hm.1.size_le
  stable hm h := ⟨hm.1.sameBelow h, hm.2⟩
  work m m' := m'.store.now = m.store.now ∧ s.Stands m' ∧ m'.strays = []
  refl hm := ⟨rfl, hm⟩
  trans h h' := ⟨h'.1.trans h.1, h'.2⟩
  holds_of_work _ h := h.2
  now_eq h := h.1
  own hm h := ⟨h.now, hm.1.sameBelow h, hm.2⟩
  passes hm := ⟨hm.1.later _, hm.2⟩
  background hm := by
    rw [hm.1.background_eq hm.2]
    exact ⟨rfl, hm⟩
  rests {m} hm := by
    refine ⟨0, ?_, ?_⟩
    · rw [Function.iterate_zero_apply, hm.1.tasks]
      rfl
    · rw [Function.iterate_zero_apply, hm.2]
      rfl

theorem Store.isQuiet_of_company (s : Store) {m : Machine} (hm : s.company.holds m) :
    m.IsQuiet := by
  rw [Machine.IsQuiet, hm.1.tasks, hm.2]
  exact ⟨rfl, rfl⟩

theorem Store.bound_of_company (s : Store) {m : Machine} (hm : s.company.holds m)
    (wake : Option ℕ) : m.bound wake = wake := by
  rw [Machine.bound, hm.1.tasks, hm.2]
  rfl

/-- What is known beforehand of a part of a race: when it is due, and what it ends in. -/
structure Rival where
  due : ℕ
  fate : Fate

namespace Rival

variable {s : Store} {m m' : Machine} {r : Rival} {rivals : List Rival} {p : Proc}
  {parts : List Proc} {o : Outcome} {e : Raised}

/-- The process is due when the rival is, and ends as the rival does. -/
structure Runs (s : Store) (m : Machine) (r : Rival) (p : Proc) : Prop where
  due : s.company.Due .proc r.due m p
  errand : ∃ turns todo, Errand s True r.fate.Met turns todo p

namespace Runs

theorem work (h : Runs s m r p) (hwork : s.company.work m m') : Runs s m' r p :=
  ⟨h.due.work hwork, h.errand⟩

theorem turn (h : Runs s m r p) (hm : s.company.holds m) :
    s.company.work m (Machine.advance p m).1 ∧
      Runs s (Machine.advance p m).1 r (Machine.advance p m).2 := by
  obtain ⟨turns, todo, herrand⟩ := h.errand
  obtain ⟨hwork, hdue⟩ := h.due.turn Mover.letsRest_proc hm (s.company.refl hm)
  obtain ⟨st, _, hnext⟩ := herrand.turn hm.1
  exact ⟨hwork, hdue, _, _, hnext⟩

theorem wait (h : Runs s m r p) (hm : s.company.holds m) (hcan : m.canMove p = false)
    (hquiet : m.IsQuiet) {now : ℕ} (hpass : m.MayPass (Machine.wake? p) now) :
    Runs s (m.later now) r p :=
  ⟨h.due.wait (s.company.refl hm) hcan hquiet hpass, h.errand⟩

/-- What has ended was due, and has ended as it was to. -/
theorem of_settled (h : Runs s m r (.settled o)) : r.due ≤ m.store.now ∧ r.fate.Met o := by
  obtain ⟨_, _, herrand⟩ := h.errand
  exact ⟨h.due.le_of_settled, herrand.of_settled.2⟩

/-- A part that is to fail and has not failed is not overdue. -/
theorem le_of_fails (h : Runs s m r p) (hfails : r.fate ≠ none)
    (hnot : ∀ e, p ≠ .settled (.error e)) : m.store.now ≤ r.due := by
  cases h.due with
  | ended hended =>
    obtain ⟨o, rfl⟩ := Proc.isOpen_eq_false_iff.mp hended
    cases o with
    | error e => exact absurd rfl (hnot e)
    | ok v => exact absurd h.of_settled.2.eq_none hfails
  | going _ hdue => exact hdue

end Runs

/-! ### Rivals side by side -/

theorem runs_work (h : List.Forall₂ (Runs s m) rivals parts) (hwork : s.company.work m m') :
    List.Forall₂ (Runs s m') rivals parts :=
  h.imp fun _ _ hruns ↦ hruns.work hwork

theorem runs_advanceAll (h : List.Forall₂ (Runs s m) rivals parts) (hm : s.company.holds m) :
    s.company.work m (Machine.advanceAll parts m).1 ∧
      List.Forall₂ (Runs s (Machine.advanceAll parts m).1) rivals
        (Machine.advanceAll parts m).2 := by
  induction parts generalizing m rivals with
  | nil =>
    cases h
    exact ⟨s.company.refl hm, .nil⟩
  | cons p parts ih =>
    cases h with
    | cons hfirst hrest =>
      obtain ⟨hwork, hnext⟩ := hfirst.turn hm
      obtain ⟨hwork', hnext'⟩ := ih (runs_work hrest hwork) (s.company.holds_of_work hm hwork)
      exact ⟨s.company.trans hwork hwork', .cons (hnext.work hwork') hnext'⟩

theorem runs_later (h : List.Forall₂ (Runs s m) rivals parts) (hm : s.company.holds m)
    (hcan : m.anyCanMove parts = false) (hquiet : m.IsQuiet) {now : ℕ}
    (hpass : m.MayPass (Machine.firstWake? parts) now) :
    List.Forall₂ (Runs s (m.later now)) rivals parts := by
  induction h with
  | nil => exact .nil
  | cons hfirst _ ih =>
    obtain ⟨hp, hrest⟩ := Bool.or_eq_false_iff.mp hcan
    obtain ⟨hpass, hpass'⟩ := (m.mayPass_earlier_iff _ _ _).mp hpass
    exact .cons (hfirst.wait hm hp hquiet hpass) (ih hrest hpass')

/-- While no part has failed, those that are to fail are not overdue. -/
theorem le_of_firstFault? (h : List.Forall₂ (Runs s m) rivals parts)
    (hnone : Proc.firstFault? parts = none) :
    ∀ r ∈ rivals, r.fate ≠ none → m.store.now ≤ r.due := by
  induction h with
  | nil => exact nofun
  | @cons r p rivals parts hfirst _ ih =>
    have hnot : ∀ e, p ≠ .settled (.error e) := by
      rintro e rfl
      cases hnone
    refine List.forall_mem_cons.mpr ⟨fun hfails ↦ hfirst.le_of_fails hfails hnot, ih ?_⟩
    rwa [Proc.firstFault?_cons_of_ne hnot] at hnone

/-- The fault is that of a rival that is due at this time, and no other that fails is due before. -/
def ComesFirst (rivals : List Rival) (now : ℕ) (e : Raised) : Prop :=
  ∃ r ∈ rivals, r.fate.Met (.error e) ∧ now = r.due ∧
    ∀ other ∈ rivals, other.fate ≠ none → r.due ≤ other.due

/-- When a part has failed with the last turns, it comes first. -/
theorem comesFirst_of_firstFault? (h : List.Forall₂ (Runs s m) rivals parts)
    (hm : s.company.holds m) (hnone : Proc.firstFault? parts = none)
    (hfault : Proc.firstFault? (Machine.advanceAll parts m).2 = some e) :
    ComesFirst rivals m.store.now e := by
  obtain ⟨hwork, hnext⟩ := runs_advanceAll h hm
  have hnow := s.company.now_eq hwork
  have hbefore := le_of_firstFault? h hnone
  have hmem := Proc.mem_of_firstFault? hfault
  generalize Machine.advanceAll parts m = t at hnext hnow hmem
  obtain ⟨i, hi, hsettled⟩ := List.mem_iff_getElem.mp hmem
  have hlt : i < rivals.length := hnext.length_eq.symm ▸ hi
  have hruns := hnext.get hlt hi
  simp only [List.get_eq_getElem, hsettled] at hruns
  obtain ⟨hdue, hmet⟩ := hruns.of_settled
  obtain ⟨is, hfails, _⟩ := hmet.exists_of_error
  have hr : rivals[i] ∈ rivals := List.getElem_mem hlt
  have hsame : m.store.now = rivals[i].due :=
    le_antisymm (hbefore _ hr (hfails ▸ Option.some_ne_none is)) (hnow ▸ hdue)
  exact ⟨_, hr, hmet, hsame, fun other hother hfails ↦ hsame ▸ hbefore other hother hfails⟩

section Race

variable {k : Except Raised (List Value) → Prog} {began : ℕ}
  (hfailed : ∀ e, k (.error e) = .done (.error e) ∨ e.StopsIteration)
  (hsucceeded : ∀ vs m, ∃ m' v, Machine.run (k (.ok vs)) m = (m', .settled (.ok v)))

include hfailed hsucceeded

/-- What a turn of the race comes to: it ends in the fault that comes first, or it succeeds, or no
part has failed yet. -/
theorem advance_racing_cases (h : List.Forall₂ (Runs s m) rivals parts)
    (hm : s.company.holds m) (hnone : Proc.firstFault? parts = none) :
    ∃ m₁ p, Machine.advance (.racing parts k) m = (m₁, p) ∧
      ((∃ e, p = .settled (.error e) ∧ ComesFirst rivals m₁.store.now e) ∨
        (∃ v, p = .settled (.ok v)) ∨
        ∃ parts', p = .racing parts' k ∧ s.company.holds m₁ ∧
          List.Forall₂ (Runs s m₁) rivals parts' ∧ Proc.firstFault? parts' = none) := by
  obtain ⟨hwork, hnext⟩ := runs_advanceAll h hm
  have hholds := s.company.holds_of_work hm hwork
  have hfirst := fun e ↦ comesFirst_of_firstFault? (e := e) h hm hnone
  rw [← s.company.now_eq hwork] at hfirst
  rw [Machine.advance_racing]
  generalize Machine.advanceAll parts m = t at hnext hholds hfirst
  rw [Machine.raceOn]
  cases hfault : Proc.firstFault? t.2 with
  | some e =>
    obtain ⟨r, _, hmet, _⟩ := hfirst e hfault
    have hend := (hfailed e).resolve_right hmet.not_stopsIteration
    exact ⟨_, _, congrArg (Machine.run · _) hend, Or.inl ⟨e, rfl, hfirst e hfault⟩⟩
  | none =>
    dsimp only
    cases hvalues : Proc.values? t.2 with
    | some vs =>
      obtain ⟨m₁, v, hrun⟩ := hsucceeded vs t.1
      exact ⟨m₁, _, hrun, Or.inr (Or.inl ⟨v, rfl⟩)⟩
    | none => exact ⟨_, _, rfl, Or.inr (Or.inr ⟨t.2, rfl, hholds, hnext, hfault⟩)⟩

/-- A race that ends in a fault ends in the one that comes first, when it comes. -/
theorem comesFirst_of_settle {fuel : ℕ} {ended : Option ℕ}
    (h : List.Forall₂ (Runs s m) rivals parts) (hm : s.company.holds m)
    (hnone : Proc.firstFault? parts = none)
    (hsettle : Machine.settle fuel m (Machine.sole (.racing parts k) began) =
      (m', [⟨.settled (.error e), began, none, ended⟩])) :
    ComesFirst rivals m'.store.now e := by
  -- Each round keeps that the parts are rivals and none has failed; so none that fails is overdue.
  induction fuel generalizing m parts with
  | zero => cases hsettle
  | succ fuel ih =>
    cases hbusy : m.isBusy (Machine.sole (.racing parts k) began) with
    | true =>
      obtain ⟨m₁, p, hturn, hcases⟩ := advance_racing_cases hfailed hsucceeded h hm hnone
      rw [Machine.settle_turn began rfl hbusy, hm.1.background_eq hm.2, hturn] at hsettle
      rcases hcases with ⟨e', rfl, hfirst⟩ | ⟨v, rfl⟩ | ⟨parts', rfl, hm₁, hnext, hnone'⟩
      · simp only [Machine.settle_settled] at hsettle
        cases hsettle
        exact hfirst
      · simp only [Machine.settle_settled] at hsettle
        cases hsettle
      · exact ih hnext hm₁ hnone' hsettle
    | false =>
      obtain ⟨hquiet, hcan⟩ := (Machine.isBusy_sole_eq_false_iff began _ m).mp hbusy
      have hany : (Machine.sole (.racing parts k) began).any Leg.isOpen = true := rfl
      cases ht : m.bound (Machine.wake? (.racing parts k)) with
      | none =>
        rw [Machine.settle, hany, hbusy, Machine.nextTime?_sole, ht] at hsettle
        cases hsettle
      | some t =>
        have hlater := Machine.lt_of_bound hquiet hcan ht
        have hpass : m.MayPass (Machine.firstWake? parts) t :=
          ⟨hlater, fun t' ht' ↦ (Option.some.inj (ht.symm.trans ht')).le⟩
        rw [Machine.settle, hany, hbusy, Machine.nextTime?_sole, ht] at hsettle
        dsimp only at hsettle
        rw [max_eq_left hlater.le] at hsettle
        exact ih (runs_later h hm hcan hquiet hpass) (s.company.passes hm) hnone hsettle

/-- So does a race that has yet to begin. -/
theorem comesFirst_of_race {progs : List Prog} (hne : progs ≠ []) {rounds : ℕ}
    (h : List.Forall₂ (Runs s m) rivals (progs.map .fresh)) (hm : s.company.holds m)
    (hsettles : m.SettlesWithin (.fresh (.race progs k)) began rounds m' (.error e)) :
    ComesFirst rivals m'.store.now e := by
  obtain ⟨ended, hsettle⟩ := hsettles
  have hturn := hsettle (rounds + 1) (Nat.le_succ rounds)
  have hadvance : Machine.advance (.fresh (.race progs k)) m.background =
      (m, .racing (progs.map .fresh) k) := by
    rw [hm.1.background_eq hm.2]
    exact Machine.run_race hne k m
  have hnone : Proc.firstFault? (progs.map .fresh) = none := by
    clear h hadvance hsettle hturn hne
    induction progs with
    | nil => rfl
    | cons p progs ih => exact ih
  rw [Machine.settle_turn began rfl (Machine.isBusy_of_canMove rfl began), hadvance] at hturn
  exact comesFirst_of_settle hfailed hsucceeded h hm hnone hturn

end Race

end Rival

end Recast
