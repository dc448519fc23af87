import Recast.Proofs.Rivals

/-!
Runs in step. Two programs that do the same until their lookups begin, and the same from then on if
certain lookups have begun before, are doubles (`Prog.Doubles`). In races of doubles the lookups
begin in the order of the parts, so it is known which have begun before those of a part. In the end
a run by itself of one race is therefore a run of the other (`Doubles.All.inStep_race`,
`Doubles.All.inStep_race_asleep`).
-/

set_option autoImplicit false

namespace Recast

/-! ### Runs that become the same -/

namespace Machine

theorem advanceAll_cons (p : Proc) (ps : List Proc) (m : Machine) :
    advanceAll (p :: ps) m = ((advanceAll ps (advance p m).1).1,
      (advance p m).2 :: (advanceAll ps (advance p m).1).2) := rfl

theorem advanceAll_append (ps qs : List Proc) (m : Machine) :
    advanceAll (ps ++ qs) m = ((advanceAll qs (advanceAll ps m).1).1,
      (advanceAll ps m).2 ++ (advanceAll qs (advanceAll ps m).1).2) := by
  induction ps generalizing m with
  | nil => rfl
  | cons p ps ih => rw [List.cons_append, advanceAll_cons, advanceAll_cons, ih, List.cons_append]

theorem isOpen_of_canMove {m : Machine} {p : Proc} (h : m.canMove p = true) : p.isOpen = true := by
  cases hp : p.isOpen with
  | true => rfl
  | false =>
    obtain ⟨o, rfl⟩ := Proc.isOpen_eq_false_iff.mp hp
    cases h

/-- After so many rounds, a run by itself of the one process is a run of the other. -/
def InStep (m : Machine) (p q : Proc) : Prop :=
  ∃ rounds, ∀ began fuel,
    settle (fuel + rounds) m (sole p began) = settle (fuel + rounds) m (sole q began)

namespace InStep

variable {m m' : Machine} {p q : Proc}

theorem refl (m : Machine) (p : Proc) : m.InStep p p := ⟨0, fun _ _ ↦ rfl⟩

/-- What is in step with a run that ends, ends in the same way. -/
theorem exists_settlesWithin (h : m.InStep p q) {began rounds : ℕ} {o : Outcome}
    (hq : m.SettlesWithin q began rounds m' o) :
    ∃ rounds', m.SettlesWithin p began rounds' m' o := by
  obtain ⟨more, hsame⟩ := h
  obtain ⟨ended, hsettle⟩ := hq
  refine ⟨rounds + more, ended, fun fuel hfuel ↦ ?_⟩
  obtain ⟨rest, rfl⟩ := Nat.exists_eq_add_of_le' hfuel
  rw [← Nat.add_assoc, hsame, hsettle _ (by omega)]

section Alone

variable {s : Store} (hm : s.company.holds m)

include hm

/-- Processes whose next turns are the same. -/
theorem of_advance_eq (hp : m.canMove p = true) (hq : m.canMove q = true)
    (h : advance p m = advance q m) : m.InStep p q := by
  refine ⟨1, fun began fuel ↦ ?_⟩
  rw [settle_turn began (isOpen_of_canMove hp) (isBusy_of_canMove hp began),
    settle_turn began (isOpen_of_canMove hq) (isBusy_of_canMove hq began),
    hm.1.background_eq hm.2, h]

/-- Processes that are in step after their next turns. -/
theorem turn (hp : m.canMove p = true) (hq : m.canMove q = true) {m₁ : Machine} {p₁ q₁ : Proc}
    (hturn : advance p m = (m₁, p₁)) (hturn' : advance q m = (m₁, q₁)) (hp₁ : p₁.isOpen = true)
    (hq₁ : q₁.isOpen = true) (h : m₁.InStep p₁ q₁) : m.InStep p q := by
  obtain ⟨rounds, hsame⟩ := h
  refine ⟨rounds + 1, fun began fuel ↦ ?_⟩
  rw [← Nat.add_assoc, settle_turn began (isOpen_of_canMove hp) (isBusy_of_canMove hp began),
    settle_turn began (isOpen_of_canMove hq) (isBusy_of_canMove hq began),
    hm.1.background_eq hm.2, hturn, hturn', if_pos hp₁, if_pos hq₁]
  exact hsame began fuel

/-- Processes that are in step when they wake, at the same time. -/
theorem wait (hp : p.isOpen = true) (hq : q.isOpen = true) (hcan : m.canMove p = false)
    (hcan' : m.canMove q = false) {t : ℕ} (ht : wake? p = some t) (ht' : wake? q = some t)
    (hle : m.store.now ≤ t) (h : (m.later t).InStep p q) : m.InStep p q := by
  obtain ⟨rounds, hsame⟩ := h
  refine ⟨rounds + 1, fun began fuel ↦ ?_⟩
  have hany : (sole p began).any Leg.isOpen = true := by simpa [sole, Leg.isOpen] using hp
  have hany' : (sole q began).any Leg.isOpen = true := by simpa [sole, Leg.isOpen] using hq
  have hidle : ∀ {p : Proc}, m.canMove p = false → m.isBusy (sole p began) = false := fun hcan ↦
    (isBusy_sole_eq_false_iff began _ m).mpr ⟨s.isQuiet_of_company hm, hcan⟩
  rw [← Nat.add_assoc, settle, settle, hany, hany', hidle hcan, hidle hcan', nextTime?_sole,
    nextTime?_sole, s.bound_of_company hm, s.bound_of_company hm, ht, ht']
  dsimp only
  rw [max_eq_left hle]
  exact hsame began fuel

end Alone

end InStep

theorem anyCanMove_map_fresh {progs : List Prog} (hne : progs ≠ []) (m : Machine) :
    m.anyCanMove (progs.map .fresh) = true := by
  obtain ⟨prog, rest, rfl⟩ := List.exists_cons_of_ne_nil hne
  rfl

end Machine

/-! ### Doubles -/

/-- Wherever the programs are run, they do the same, and something is left of both that can move.
With its next turn this does the same if just these lookups have begun before. -/
def Prog.Doubles (s : Store) (before : List Value) (prog prog' : Prog) : Prop :=
  ∀ m, s.Stands m → ∃ m₁ p q, m.run prog = (m₁, p) ∧ m.run prog' = (m₁, q) ∧
    (∀ m', Machine.canMove m' p = true) ∧ (∀ m', Machine.canMove m' q = true) ∧
    ∀ m', s.Stands m' → m'.store.lookups = before → Machine.advance p m' = Machine.advance q m'

/-- What follows both of them makes no difference. -/
theorem Prog.Doubles.bind {s : Store} {before : List Value} {prog prog' : Prog}
    (h : Doubles s before prog prog') (f : Outcome → Prog) :
    Doubles s before (prog.bind f) (prog'.bind f) := by
  intro m hm
  obtain ⟨m₁, p, q, hrun, hrun', hp, hq, hadvance⟩ := h m hm
  have hopen := Machine.isOpen_of_canMove (hp m)
  have hopen' := Machine.isOpen_of_canMove (hq m)
  refine ⟨m₁, p.bind f, q.bind f, ?_, ?_, fun m' ↦ ?_, fun m' ↦ ?_, fun m' hm' hbefore ↦ ?_⟩
  · rw [Machine.run_bind, hrun, Machine.goOn_of_ne (Proc.isOpen_eq_true_iff.mp hopen)]
  · rw [Machine.run_bind, hrun', Machine.goOn_of_ne (Proc.isOpen_eq_true_iff.mp hopen')]
  · rw [Machine.canMove_bind hopen, hp]
  · rw [Machine.canMove_bind hopen', hq]
  · rw [Machine.advance_bind, Machine.advance_bind, hadvance m' hm' hbefore]

/-- The programs are each other's doubles in their order, or the same one that ends at once. Those
that go on begin one lookup each, and those of the earlier ones have begun before. -/
inductive Doubles.All (s : Store) : List Value → List Prog → List Prog → Prop
  | nil (before : List Value) : All s before [] []
  | same {before : List Value} {prog : Prog} {progs progs' : List Prog} {v : Value}
      (h : ∀ m, s.Stands m →
        ∃ m₁, m.run prog = (m₁, .settled (.ok v)) ∧ m.Deed s m₁ [] [])
      (hrest : All s before progs progs') : All s before (prog :: progs) (prog :: progs')
  | going {before : List Value} {prog prog' : Prog} {progs progs' : List Prog}
      {result : Outcome → Prop} {turns : ℕ} {country : Value}
      (h : prog.Doubles s before prog')
      (hprimed : Errand.Primed s True result turns {country} prog')
      (hrest : All s (before ++ [country]) progs progs') :
      All s before (prog :: progs) (prog' :: progs')

/-- Processes that are about to begin their lookups: they have succeeded, or they can move, and then
do the same if just these lookups have begun before. -/
inductive Poised (s : Store) : List Value → List Proc → List Proc → Prop
  | nil (before : List Value) : Poised s before [] []
  | same {before : List Value} {parts parts' : List Proc} (v : Value)
      (hrest : Poised s before parts parts') :
      Poised s before (.settled (.ok v) :: parts) (.settled (.ok v) :: parts')
  | going {before begun : List Value} {p q : Proc} {parts parts' : List Proc}
      (hp : ∀ m, Machine.canMove m p = true) (hq : ∀ m, Machine.canMove m q = true)
      (hadvance : ∀ m, s.Stands m → m.store.lookups = before →
        Machine.advance p m = Machine.advance q m ∧ s.Stands (Machine.advance q m).1 ∧
          (Machine.advance q m).1.store.lookups = before ++ begun)
      (hrest : Poised s (before ++ begun) parts parts') : Poised s before (p :: parts) (q :: parts')

namespace Poised

variable {s : Store} {before : List Value} {m m₁ : Machine} {parts parts' : List Proc} {p q : Proc}
  {k : Except Raised (List Value) → Prog}

theorem advanceAll_eq (h : Poised s before parts parts') (hm : s.Stands m)
    (hbefore : m.store.lookups = before) :
    Machine.advanceAll parts m = Machine.advanceAll parts' m := by
  induction h generalizing m with
  | nil => rfl
  | same v _ ih =>
    have hrest := ih hm hbefore
    rw [Machine.advanceAll_cons, Machine.advanceAll_cons, Machine.advance, hrest]
  | going _ _ hadvance _ ih =>
    obtain ⟨hsame, hstands, hbegun⟩ := hadvance m hm hbefore
    rw [Machine.advanceAll_cons, Machine.advanceAll_cons, hsame, ih hstands hbegun]

theorem firstFault?_eq_none (h : Poised s before parts parts') :
    Proc.firstFault? parts = none ∧ Proc.firstFault? parts' = none := by
  induction h with
  | nil => exact ⟨rfl, rfl⟩
  | same _ _ ih => exact ih
  | going hp hq _ _ ih =>
    have hopen := Machine.isOpen_of_canMove (hp .empty)
    have hopen' := Machine.isOpen_of_canMove (hq .empty)
    rw [Proc.firstFault?_cons_of_ne fun e ↦ Proc.isOpen_eq_true_iff.mp hopen _,
      Proc.firstFault?_cons_of_ne fun e ↦ Proc.isOpen_eq_true_iff.mp hopen' _]
    exact ih

/-- All have ended and are the same, or some of both can move. -/
theorem eq_or_anyCanMove (h : Poised s before parts parts') :
    parts = parts' ∨
      ∀ m, Machine.anyCanMove m parts = true ∧ Machine.anyCanMove m parts' = true := by
  induction h with
  | nil => exact Or.inl rfl
  | same v _ ih => exact ih.imp (congrArg _) id
  | going hp hq => exact Or.inr fun m ↦ by simp [Machine.anyCanMove, hp m, hq m]

theorem values?_eq_none (hcan : m.anyCanMove parts = true) : Proc.values? parts = none := by
  cases hvalues : Proc.values? parts with
  | none => rfl
  | some vs =>
    obtain rfl := Proc.values?_eq_some_iff.mp hvalues
    cases hcan.symm.trans (Machine.anyCanMove_map_settled m _)

/-- Processes that come to races of such parts with their next turns are in step. -/
theorem inStep (h : Poised s m₁.store.lookups parts parts') (hm : s.company.holds m)
    (hm₁ : s.company.holds m₁) (hp : m.canMove p = true) (hq : m.canMove q = true)
    (hturn : Machine.advance p m = m₁.raceOn parts k)
    (hturn' : Machine.advance q m = m₁.raceOn parts' k) : m.InStep p q := by
  obtain ⟨hfault, hfault'⟩ := h.firstFault?_eq_none
  rcases h.eq_or_anyCanMove with rfl | hcan
  · exact .of_advance_eq hm hp hq (hturn.trans hturn'.symm)
  · obtain ⟨hmoves, hmoves'⟩ := hcan m₁
    rw [Machine.raceOn, hfault, values?_eq_none hmoves] at hturn
    rw [Machine.raceOn, hfault', values?_eq_none hmoves'] at hturn'
    refine .turn hm hp hq hturn hturn' rfl rfl (.of_advance_eq hm₁ hmoves hmoves' ?_)
    rw [Machine.advance_racing, Machine.advance_racing, h.advanceAll_eq hm₁.1 rfl]

end Poised

namespace Doubles.All

variable {s : Store} {before : List Value} {m : Machine} {progs progs' : List Prog}
  {k : Except Raised (List Value) → Prog}

/-- After their first turns all are about to begin their lookups. -/
theorem exists_poised (h : All s before progs progs') (hm : s.Stands m) :
    ∃ m₁ parts parts', Machine.advanceAll (progs.map .fresh) m = (m₁, parts) ∧
      Machine.advanceAll (progs'.map .fresh) m = (m₁, parts') ∧ m.Deed s m₁ [] [] ∧
      Poised s before parts parts' := by
  induction h generalizing m with
  | nil => exact ⟨m, [], [], rfl, rfl, .refl hm, .nil _⟩
  | @same before prog progs progs' v h _ ih =>
    obtain ⟨m₁, hrun, hdeed⟩ := h m hm
    obtain ⟨m₂, parts, parts', hall, hall', hdeed', hpoised⟩ := ih hdeed.stands
    refine ⟨m₂, .settled (.ok v) :: parts, .settled (.ok v) :: parts', ?_, ?_,
      hdeed.trans hdeed', .same v hpoised⟩
    · rw [List.map_cons, Machine.advanceAll_cons, Machine.advance, hrun, hall]
    · rw [List.map_cons, Machine.advanceAll_cons, Machine.advance, hrun, hall']
  | @going before prog prog' progs progs' result turns country h hprimed _ ih =>
    obtain ⟨m₁, p, q, hrun, hrun', hp, hq, hadvance⟩ := h m hm
    obtain ⟨hdeed, hprompt, _⟩ := hprimed m hm
    rw [hrun'] at hdeed hprompt
    obtain ⟨m₂, parts, parts', hall, hall', hdeed', hpoised⟩ := ih hdeed.stands
    have hbegins : ∀ m', s.Stands m' → m'.store.lookups = before →
        Machine.advance p m' = Machine.advance q m' ∧ s.Stands (Machine.advance q m').1 ∧
          (Machine.advance q m').1.store.lookups = before ++ [country] := by
      intro m' hm' hbefore
      obtain ⟨st, hleft, hzero, _⟩ := hprompt.turn hm'
      have hbegun := hleft.of.todo_eq
      rw [hzero, add_zero, Multiset.coe_eq_singleton] at hbegun
      refine ⟨hadvance m' hm' hbefore, hleft.of.deed.stands, ?_⟩
      rw [hleft.of.deed.lookups_eq, hbegun, hbefore]
    refine ⟨m₂, p :: parts, q :: parts', ?_, ?_, hdeed.trans hdeed', .going hp hq hbegins hpoised⟩
    · rw [List.map_cons, Machine.advanceAll_cons, Machine.advance, hrun, hall]
    · rw [List.map_cons, Machine.advanceAll_cons, Machine.advance, hrun', hall']

theorem deed (h : All s before progs progs') :
    (∀ prog ∈ progs, ∀ m, s.Stands m → m.Deed s (m.run prog).1 [] []) ∧
      ∀ prog ∈ progs', ∀ m, s.Stands m → m.Deed s (m.run prog).1 [] [] := by
  induction h with
  | nil => exact ⟨nofun, nofun⟩
  | @same _ prog _ _ _ h _ ih =>
    have hfirst : ∀ m, s.Stands m → m.Deed s (m.run prog).1 [] [] := by
      intro m hm
      obtain ⟨m₁, hrun, hdeed⟩ := h m hm
      rwa [hrun]
    exact ⟨List.forall_mem_cons.mpr ⟨hfirst, ih.1⟩, List.forall_mem_cons.mpr ⟨hfirst, ih.2⟩⟩
  | @going _ prog prog' _ _ _ _ _ h hprimed _ ih =>
    have hfirst' : ∀ m, s.Stands m → m.Deed s (m.run prog').1 [] [] := fun m hm ↦ (hprimed m hm).1
    have hfirst : ∀ m, s.Stands m → m.Deed s (m.run prog).1 [] [] := by
      intro m hm
      obtain ⟨m₁, p, q, hrun, hrun', _⟩ := h m hm
      have hdeed := hfirst' m hm
      rw [hrun'] at hdeed
      rwa [hrun]
    exact ⟨List.forall_mem_cons.mpr ⟨hfirst, ih.1⟩, List.forall_mem_cons.mpr ⟨hfirst', ih.2⟩⟩

theorem length_eq (h : All s before progs progs') : progs.length = progs'.length := by
  induction h with
  | nil => rfl
  | same _ _ ih | going _ _ _ ih => rw [List.length_cons, List.length_cons, ih]

/-- Races whose parts are about to start, or to wake, are in step. -/
theorem inStep_racing (h : All s m.store.lookups progs progs') (hm : s.company.holds m)
    {parts parts' : List Proc} (hcan : m.anyCanMove parts = true)
    (hcan' : m.anyCanMove parts' = true)
    (hparts : Machine.advanceAll parts m = Machine.advanceAll (progs.map .fresh) m)
    (hparts' : Machine.advanceAll parts' m = Machine.advanceAll (progs'.map .fresh) m) :
    m.InStep (.racing parts k) (.racing parts' k) := by
  obtain ⟨m₁, begun, begun', hall, hall', hdeed, hpoised⟩ := h.exists_poised hm.1
  have hlookups : m₁.store.lookups = m.store.lookups := hdeed.lookups_eq.trans (List.append_nil _)
  have hstrays : m₁.strays = [] := by rw [hdeed.strays_eq, hm.2, List.append_nil]
  rw [← hlookups] at hpoised
  refine hpoised.inStep hm ⟨hdeed.stands, hstrays⟩ hcan hcan' (k := k) ?_ ?_
  · rw [Machine.advance_racing, hparts, hall]
  · rw [Machine.advance_racing, hparts', hall']

/-- A race runs in step with that of the doubles of its parts. -/
theorem inStep_race (hne : progs ≠ []) (h : All s m.store.lookups progs progs')
    (hm : s.company.holds m) :
    m.InStep (.fresh (.race progs k)) (.fresh (.race progs' k)) := by
  have hne' : progs' ≠ [] := by
    rwa [← List.length_pos_iff, ← h.length_eq, List.length_pos_iff]
  have hracing : m.InStep (.racing (progs.map .fresh) k) (.racing (progs'.map .fresh) k) :=
    h.inStep_racing hm (Machine.anyCanMove_map_fresh hne m)
      (Machine.anyCanMove_map_fresh hne' m) rfl rfl
  exact .turn hm rfl rfl (Machine.run_race hne k m) (Machine.run_race hne' k m) rfl rfl hracing

theorem firstWake?_map_sleeping {ks : List (Outcome → Prog)} (hne : ks ≠ []) (wake : ℕ) :
    Machine.firstWake? (ks.map (Proc.sleeping wake)) = some wake := by
  induction ks with
  | nil => exact absurd rfl hne
  | cons f ks ih =>
    rw [List.map_cons, Machine.firstWake?, Machine.wake?]
    by_cases hks : ks = []
    · rw [hks]
      rfl
    · rw [ih hks, Machine.earlier, Nat.min_self]

/-- So does a race whose parts first sleep, all equally long. -/
theorem inStep_race_asleep {ks ks' : List (Outcome → Prog)} (hne : ks ≠ [])
    (h : All s m.store.lookups (ks.map fun f ↦ f (.ok .null)) (ks'.map fun f ↦ f (.ok .null)))
    (hm : s.company.holds m) {ms : ℕ} (hms : ms ≠ 0) :
    m.InStep (.fresh (.race (ks.map (Prog.sleep ms)) k))
      (.fresh (.race (ks'.map (Prog.sleep ms)) k)) := by
  have hne' : ks' ≠ [] := by
    have hlength := h.length_eq
    rw [List.length_map, List.length_map] at hlength
    rwa [← List.length_pos_iff, ← hlength, List.length_pos_iff]
  have hlate : ¬ m.store.now + ms ≤ m.store.now := by omega
  have hmap : ∀ {ks : List (Outcome → Prog)}, ks ≠ [] → ks.map (Prog.sleep ms) ≠ [] := fun hne ↦ by
    simpa using hne
  have hstart : ∀ {ks : List (Outcome → Prog)}, ks ≠ [] →
      Machine.advance (.racing ((ks.map (Prog.sleep ms)).map .fresh) k) m =
        (m, .racing (ks.map (Proc.sleeping (m.store.now + ms))) k) := by
    intro ks hne
    rw [Machine.advance_racing, Machine.advanceAll_map_sleep, Machine.raceOn_map_sleeping hne]
  have hasleep : ∀ {ks : List (Outcome → Prog)}, ks ≠ [] →
      m.canMove (.racing (ks.map (Proc.sleeping (m.store.now + ms))) k) = false := fun hne ↦
    (Machine.anyCanMove_map_sleeping hne _ m).trans (decide_eq_false hlate)
  refine .turn hm rfl rfl (Machine.run_race (hmap hne) k m) (Machine.run_race (hmap hne') k m) rfl
    rfl ?_
  refine .turn hm (Machine.anyCanMove_map_fresh (hmap hne) m)
    (Machine.anyCanMove_map_fresh (hmap hne') m) (hstart hne) (hstart hne') rfl rfl ?_
  refine .wait hm rfl rfl (hasleep hne) (hasleep hne') (firstWake?_map_sleeping hne _)
    (firstWake?_map_sleeping hne' _) (Nat.le_add_right _ _) ?_
  have hlater : s.company.holds (m.later (m.store.now + ms)) := s.company.passes hm
  have hwoken : ∀ {ks : List (Outcome → Prog)}, ks ≠ [] →
      (m.later (m.store.now + ms)).anyCanMove
        (ks.map (Proc.sleeping (m.store.now + ms))) = true :=
    fun hne ↦ (Machine.anyCanMove_map_sleeping hne _ _).trans (decide_eq_true le_rfl)
  exact inStep_racing (m := m.later (m.store.now + ms)) h hlater (hwoken hne) (hwoken hne')
    (Machine.advanceAll_map_sleeping h.deed.1 hlater.1 le_rfl)
    (Machine.advanceAll_map_sleeping h.deed.2 hlater.1 le_rfl)

end Doubles.All

/-! ### Doubles by themselves -/

namespace Prog.Doubles

variable {s : Store} {m : Machine} {prog prog' : Prog}

/-- Processes that are about to start, or to wake, as doubles are in step. -/
theorem inStep_of_run (h : Doubles s m.store.lookups prog prog') (hm : s.company.holds m)
    (hdeed : m.Deed s (m.run prog').1 [] []) {p q : Proc} (hp : m.canMove p = true)
    (hq : m.canMove q = true) (hadvance : Machine.advance p m = m.run prog)
    (hadvance' : Machine.advance q m = m.run prog') : m.InStep p q := by
  obtain ⟨m₁, p₁, q₁, hrun, hrun', hp₁, hq₁, hsame⟩ := h m hm.1
  rw [hrun'] at hdeed
  have hstrays : m₁.strays = [] := by rw [hdeed.strays_eq, hm.2, List.append_nil]
  have hlookups : m₁.store.lookups = m.store.lookups := hdeed.lookups_eq.trans (List.append_nil _)
  exact .turn hm hp hq (hadvance.trans hrun) (hadvance'.trans hrun')
    (Machine.isOpen_of_canMove (hp₁ m₁)) (Machine.isOpen_of_canMove (hq₁ m₁))
    (.of_advance_eq ⟨hdeed.stands, hstrays⟩ (hp₁ m₁) (hq₁ m₁) (hsame m₁ hdeed.stands hlookups))

/-- A program runs in step with its double. -/
theorem inStep (h : Doubles s m.store.lookups prog prog') (hm : s.company.holds m)
    (hdeed : m.Deed s (m.run prog').1 [] []) : m.InStep (.fresh prog) (.fresh prog') :=
  h.inStep_of_run hm hdeed rfl rfl rfl rfl

/-- So does a program that first sleeps. -/
theorem inStep_asleep {f g : Outcome → Prog}
    (h : Doubles s m.store.lookups (f (.ok .null)) (g (.ok .null))) (hm : s.company.holds m)
    (hdeed : ∀ m, s.Stands m → m.Deed s (m.run (g (.ok .null))).1 [] []) {ms : ℕ} (hms : ms ≠ 0) :
    m.InStep (.fresh (.sleep ms f)) (.fresh (.sleep ms g)) := by
  have hlate : ¬ m.store.now + ms ≤ m.store.now := by omega
  have hlater : s.company.holds (m.later (m.store.now + ms)) := s.company.passes hm
  have hasleep : ∀ f : Outcome → Prog, m.canMove (.sleeping (m.store.now + ms) f) = false :=
    fun _ ↦ decide_eq_false hlate
  have hstart : ∀ f : Outcome → Prog, Machine.advance (.fresh (.sleep ms f)) m =
      (m, .sleeping (m.store.now + ms) f) := fun _ ↦ rfl
  refine .turn hm rfl rfl (hstart f) (hstart g) rfl rfl
    (.wait hm rfl rfl (hasleep f) (hasleep g) rfl rfl (Nat.le_add_right _ _) ?_)
  have hwoken : Doubles s (m.later (m.store.now + ms)).store.lookups (f (.ok .null))
      (g (.ok .null)) := h
  exact hwoken.inStep_of_run hlater (hdeed _ hlater.1) (decide_eq_true le_rfl)
    (decide_eq_true le_rfl) (if_pos le_rfl) (if_pos le_rfl)

end Prog.Doubles

end Recast
