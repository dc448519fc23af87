import Recast.Proofs.Cancelling
import Recast.Proofs.Sharing

/-!
Processes that may be cancelled, among others that share awaitables. Whatever a process does, and
also when it is cancelled, it leaves alone what it does not own, and it does no more to the
awaitables than to hand them over (`Commons.Conduct`). What a program ends in that is not cancelled
depends neither on when others move nor on whether they are cancelled. That a cancelled process does
not wait for the future of an awaitable is what this rests on (`Commons.Holds.subsides`).
-/

set_option autoImplicit false

namespace Recast

/-! ### What calls have in common -/

/-- What calls have in common: what may be relied on, and the awaitables of rules with the outcomes
that they may have. Each awaitable belongs to one rule, and those that are run leave themselves
alone. -/
structure Commons where
  ground : Surroundings
  steady : ground.IsSteady
  awaitables : List OneShot
  ends : OneShot → Outcome → Prop
  apart : ∀ w ∈ awaitables, ∀ v ∈ awaitables, w.cell = v.cell → w = v
  discreet : ∀ w ∈ awaitables, w.isRun = true → w.Discreet (ground.footing steady) w.body
  ends_of_remains : ∀ w ∈ awaitables, w.isRun = true → ∀ o,
    w.body.Remains (ground.footing steady) (.settled o) → ends w o

namespace Commons

/-- What computes and awaitables may rely on. -/
abbrev footing (c : Commons) : Footing := c.ground.footing c.steady

variable {c : Commons} {w : OneShot} {m m' m'' : Machine} {own more : Set ℕ} {i : ℕ} {o : Outcome}

/-- All awaitables stand as they should, and what is there already does not end in anything else. -/
structure Holds (c : Commons) (m : Machine) : Prop where
  ground : c.ground.holds m
  regular : m.IsRegular
  standing : ∀ w ∈ c.awaitables, w.Standing c.footing m
  own : ∀ w ∈ c.awaitables, w.isRun = false → ∀ o, m.future? w.id = some o → c.ends w o

/-- What has been handed over stays so, and so do the outcomes of futures. -/
def Keeps (c : Commons) (m m' : Machine) : Prop := ∀ w ∈ c.awaitables, w.Keeps m m'

/-- The futures of the awaitables. -/
def guarded (c : Commons) (m : Machine) : Set ℕ := {i | ∃ w ∈ c.awaitables, i ∈ w.places m}

/-- What a process may do that owns records: those of others stay as they are. -/
structure Permits (c : Commons) (own : Set ℕ) (m m' : Machine) : Prop where
  holds : c.Holds m'
  keeps : c.Keeps m m'
  spares : m.Spares (c.ground.others own) m'

/-- What goes on elsewhere: each awaitable is left alone, or the task that runs it moves, and the
records to be kept stay as they are. -/
structure Work (c : Commons) (kept : Set ℕ) (m m' : Machine) : Prop where
  ground : c.ground.holds m'
  regular : m'.IsRegular
  awaitables : ∀ w ∈ c.awaitables, w.Spares m m' ∨ w.TaskMoves m m'
  own : ∀ w ∈ c.awaitables, w.isRun = false → ∀ o, m'.future? w.id = some o → c.ends w o
  records : m.Spares kept m'

theorem Keeps.refl (c : Commons) (m : Machine) : c.Keeps m m := fun w _ ↦ .refl w m

theorem Keeps.trans (h : c.Keeps m m') (h' : c.Keeps m' m'') : c.Keeps m m'' :=
  fun w hw ↦ (h w hw).trans (h' w hw)

theorem Permits.refl (hm : c.Holds m) (own : Set ℕ) : c.Permits own m m :=
  ⟨hm, .refl c m, .refl m _⟩

theorem Permits.trans (h : c.Permits own m m') (h' : c.Permits (own ∪ m.made m') m' m'') :
    c.Permits own m m'' :=
  ⟨h'.holds, h.keeps.trans h'.keeps, Surroundings.spares_trans h.spares h'.spares⟩

theorem Permits.mono (h : c.Permits own m m') (hmore : own ⊆ more) : c.Permits more m m' :=
  ⟨h.holds, h.keeps, h.spares.mono (c.ground.others_mono hmore)⟩

namespace Holds

/-- What goes on elsewhere changes nothing about what holds. -/
theorem work {kept : Set ℕ} (hm : c.Holds m) (h : c.Work kept m m') :
    c.Holds m' ∧ c.Keeps m m' := by
  have hall : ∀ w ∈ c.awaitables, w.Standing c.footing m' ∧ w.Keeps m m' := by
    intro w hw
    rcases h.awaitables w hw with hspares | hmoves
    · exact ⟨(hm.standing w hw).spares hspares, hspares.keeps⟩
    · obtain ⟨hstanding, hkeeps, _⟩ :=
        (hm.standing w hw).taskMoves (c.discreet w hw) hm.regular hm.ground hmoves
      exact ⟨hstanding, hkeeps⟩
  exact ⟨⟨h.ground, h.regular, fun w hw ↦ (hall w hw).1, h.own⟩, fun w hw ↦ (hall w hw).2⟩

/-- Changes of records leave the awaitables alone. -/
theorem sameBelow (hm : c.Holds m) {s : Store} (h : m.store.SameBelow c.ground.base s) :
    c.Holds { m with store := s } ∧ c.Keeps m { m with store := s } := by
  have hspares : ∀ w : OneShot, w.Spares m { m with store := s } :=
    fun w ↦ OneShot.spares_of_sameBelow h
  refine hm.work (show c.Work ∅ m _ from ⟨c.ground.stable hm.ground h, ?_,
    fun w _ ↦ Or.inl (hspares w), ?_, h.types, h.size_le, nofun⟩)
  · exact ⟨by rw [h.futures]; exact hm.regular.sizes, by rw [h.shared]; exact hm.regular.notes⟩
  · intro w hw hrun o ho
    rw [Machine.future?, h.futures] at ho
    exact hm.own w hw hrun o ho

theorem places_subset_guarded (hw : w ∈ c.awaitables) (m : Machine) : w.places m ⊆ c.guarded m :=
  fun _ hi ↦ ⟨w, hw, hi⟩

/-- Cancelling leaves the awaitables alone when their futures are. -/
theorem subsides (hm : c.Holds m) (h : m.Subsides (c.guarded m) m') :
    c.Holds m' ∧ c.Keeps m m' := by
  have hspares : ∀ w ∈ c.awaitables, w.Spares m m' :=
    fun w hw ↦ OneShot.spares_of_subsides h (places_subset_guarded hw m)
  refine hm.work ⟨?_, ?_, fun w hw ↦ Or.inl (hspares w hw), ?_, h.spares ∅⟩
  · exact c.steady hm.ground (by rw [h.rest]; rfl)
  · refine ⟨by rw [h.tasks_size, h.futures_size, hm.regular.sizes], ?_⟩
    rw [h.rest]
    exact hm.regular.notes
  · intro w hw hrun o ho
    have hmem : w.id ∈ c.guarded m := ⟨w, hw, by simp [OneShot.places, hrun]⟩
    rw [Machine.future?, h.futures _ hmem] at ho
    exact hm.own w hw hrun o ho

/-- What an awaitable ends in it may end in. -/
theorem ends (hm : c.Holds m) (hw : w ∈ c.awaitables) (hi : i ∈ w.places m)
    (ho : m.future? i = some o) : c.ends w o := by
  cases hrun : w.isRun with
  | false =>
    rw [OneShot.places, Set.mem_ofPred, hrun] at hi
    obtain rfl : i = w.id := by simpa using hi
    exact hm.own w hw hrun o ho
  | true =>
    rw [OneShot.places, Set.mem_ofPred, if_pos hrun] at hi
    have hstanding := hm.standing w hw
    refine c.ends_of_remains w hw hrun o (hstanding.remains hrun ⟨.awaitable .task i, i, ?_,
      Or.inl rfl, ho⟩)
    cases hstanding with
    | kept hnoted => simp [hnoted] at hi
    | own hrun' => cases hrun.symm.trans hrun'
    | run _ hnoted =>
      rw [hnoted, List.mem_singleton] at hi
      rw [hnoted, hi]

end Holds

theorem places_of_keeps (h : w.Keeps m m') (hi : i ∈ w.places m) : i ∈ w.places m' := by
  rw [OneShot.places, Set.mem_ofPred] at hi ⊢
  split_ifs at hi ⊢
  · rwa [h.noted (List.ne_nil_of_mem hi)]
  · exact hi

theorem guarded_of_subsides (h : m.Subsides (c.guarded m) m') : c.guarded m' = c.guarded m := by
  have hplaces : ∀ w : OneShot, w.places m' = w.places m := by
    intro w
    rw [OneShot.places, OneShot.places, OneShot.noted, h.rest]
    rfl
  simp only [guarded, hplaces]

/-! ### Good conduct -/

variable {result : Machine → Outcome → Prop} {good : Bool → Proc → Set ℕ → Machine → Prop}
  {cancelled : Bool} {p q : Proc}

/-- A process is in a good state, cancelled or not, when it can be left alone, as long as its own
records are, when it may do what it does if it moves, and when it can be cancelled. If it was not,
what it ends in is a result. -/
structure Conduct (c : Commons) (result : Machine → Outcome → Prop)
    (good : Bool → Proc → Set ℕ → Machine → Prop) : Prop where
  undisturbed {cancelled : Bool} {p : Proc} {own : Set ℕ} {m m' : Machine}
    (h : good cancelled p own m) (hm : c.Holds m) (hm' : c.Holds m') (hkeeps : c.Keeps m m')
    (hspares : m.Spares own m') : good cancelled p own m'
  move {cancelled : Bool} {p q : Proc} {own : Set ℕ} {m m' : Machine} (h : good cancelled p own m)
    (hm : c.Holds m) (hmove : Machine.Move m p m' q) :
    c.Permits own m m' ∧ good cancelled q (own ∪ m.made m') m'
  forget {cancelled : Bool} {p : Proc} {own : Set ℕ} {m : Machine} (h : good cancelled p own m) :
    good true p own m
  cancel {p : Proc} {own : Set ℕ} {m : Machine} {stop : ℕ → Machine → Machine}
    (h : good true p own m) (hm : c.Holds m) (hstop : m.Heeds (c.guarded m) stop p.awaited) :
    good true (Machine.cancelWith stop p m).2 own (Machine.cancelWith stop p m).1
  ended {o : Outcome} {own : Set ℕ} {m : Machine} (h : good false (.settled o) own m)
    (hm : c.Holds m) : result m o

/-- Wherever the program is started, its conduct is good, and if it is not cancelled and ends, then
in a result. -/
def Conducts (c : Commons) (result : Machine → Outcome → Prop) (p : Prog) : Prop :=
  ∃ good, c.Conduct result good ∧ ∀ m, c.Holds m → good false (.fresh p) ∅ m

theorem Conducts.mono {result' : Machine → Outcome → Prop} {p : Prog} (h : c.Conducts result p)
    (hresult : ∀ m o, c.Holds m → result m o → result' m o) : c.Conducts result' p := by
  obtain ⟨good, hgood, hstart⟩ := h
  exact ⟨good, { hgood with ended := fun h hm ↦ hresult _ _ hm (hgood.ended h hm) }, hstart⟩

/-- A move of a process that is followed by a program: the process moves, if it has not ended, and
when it has ended the program runs. -/
theorem Conduct.move_bind (hgood : c.Conduct result good) {f : Outcome → Prog}
    (h : good cancelled p own m) (hm : c.Holds m) (hmove : Machine.Move m (p.bind f) m' q) :
    ∃ m₁ p₁, c.Permits own m m₁ ∧ good cancelled p₁ (own ∪ m.made m₁) m₁ ∧
      ((∃ o, p₁ = .settled o ∧ m₁.run (f o) = (m', q)) ∨ m' = m₁ ∧ q = p₁.bind f) := by
  rcases hmove.of_bind with ⟨o, rfl, hrun⟩ | ⟨m₁, p₁, hfirst, hrest⟩
  · refine ⟨m, .settled o, .refl hm own, ?_, Or.inl ⟨o, rfl, hrun⟩⟩
    rwa [m.made_self, Set.union_empty]
  · obtain ⟨hpermits, hnext⟩ := hgood.move h hm hfirst
    refine ⟨m₁, p₁, hpermits, hnext, ?_⟩
    by_cases hended : ∃ o, p₁ = .settled o
    · obtain ⟨o, rfl⟩ := hended
      exact Or.inl ⟨o, rfl, hrest⟩
    · rw [Machine.goOn_of_ne fun o ho ↦ hended ⟨o, ho⟩] at hrest
      cases hrest
      exact Or.inr ⟨rfl, rfl⟩

/-! ### Programs of good conduct -/

/-- Wherever the program is started, it ends at once, and its outcome stays a result as long as the
records that it made are left alone. -/
def EndsIn (c : Commons) (result : Machine → Outcome → Prop) (p : Prog) : Prop :=
  ∀ m, c.Holds m → ∃ m' o, m.run p = (m', .settled o) ∧ c.Permits ∅ m m' ∧
    ∀ m'', c.Holds m'' → m'.Spares (m.made m') m'' → result m'' o

/-- The program has not begun, or it has ended. -/
def AtOnce (c : Commons) (result : Machine → Outcome → Prop) (p : Prog) (cancelled : Bool)
    (q : Proc) (own : Set ℕ) (m : Machine) : Prop :=
  q = .fresh p ∧ own = ∅ ∨ ∃ o, q = .settled o ∧
    (cancelled = false → ∀ m', c.Holds m' → m.Spares own m' → result m' o)

theorem EndsIn.conduct {p : Prog} (h : c.EndsIn result p) :
    c.Conduct result (c.AtOnce result p) := by
  constructor
  · rintro cancelled q own m m' (hfresh | ⟨o, rfl, ho⟩) _ _ _ hspares
    · exact Or.inl hfresh
    · exact Or.inr ⟨o, rfl, fun hc m'' hm'' hspares' ↦ ho hc m'' hm'' (hspares.trans hspares')⟩
  · rintro cancelled q r own m m' (⟨rfl, rfl⟩ | ⟨o, rfl, _⟩) hm hmove
    · obtain ⟨m₁, o, hrun, hpermits, hresult⟩ := h m hm
      cases hmove with
      | start hstart =>
        cases hrun.symm.trans hstart
        refine ⟨hpermits, Or.inr ⟨o, rfl, fun _ m'' hm'' hspares' ↦ hresult m'' hm'' ?_⟩⟩
        rwa [Set.empty_union] at hspares'
    · exact absurd rfl (hmove.ne_settled o)
  · rintro cancelled q own m (hfresh | ⟨o, rfl, _⟩)
    · exact Or.inl hfresh
    · exact Or.inr ⟨o, rfl, nofun⟩
  · rintro q own m stop (⟨rfl, _⟩ | ⟨o, rfl, _⟩) _ _
    · exact Or.inr ⟨_, rfl, nofun⟩
    · exact Or.inr ⟨o, rfl, nofun⟩
  · rintro o own m (⟨hfresh, _⟩ | ⟨o', ho', hresult⟩) hm
    · cases hfresh
    · cases ho'
      exact hresult rfl m hm (.refl m own)

theorem EndsIn.conducts {p : Prog} (h : c.EndsIn result p) : c.Conducts result p :=
  ⟨_, h.conduct, fun _ _ ↦ Or.inl ⟨rfl, rfl⟩⟩

theorem endsIn_give {v : Value} (h : ∀ m, c.Holds m → result m (.ok v)) :
    c.EndsIn result (Prog.give v) :=
  fun m hm ↦ ⟨m, .ok v, rfl, .refl hm ∅, fun m' hm' _ ↦ h m' hm'⟩

/-- The program sleeps, it was woken by a cancellation, or it goes on. -/
def Asleep (woken stopped : Bool → Proc → Set ℕ → Machine → Prop) (ms : ℕ) (k : Outcome → Prog)
    (cancelled : Bool) (q : Proc) (own : Set ℕ) (m : Machine) : Prop :=
  ((q = .fresh (.sleep ms k) ∨ (∃ time, q = .sleeping time k) ∨
      cancelled = true ∧ q = .ready (.error .cancelled) k) ∧ own = ∅) ∨
    woken cancelled q own m ∨ cancelled = true ∧ (stopped true q own m ∨ ∃ o, q = .settled o)

/-- A program that sleeps first goes on when it wakes, or with the cancellation. -/
theorem Conduct.asleep {woken stopped : Bool → Proc → Set ℕ → Machine → Prop} {ms : ℕ}
    {k : Outcome → Prog} (hwoken : c.Conduct result woken)
    (hwokenStart : ∀ m, c.Holds m → woken false (.fresh (k (.ok .null))) ∅ m)
    (hstopped : c.Conduct (fun _ _ ↦ True) stopped)
    (hstoppedStart : ∀ m, c.Holds m → stopped false (.fresh (k (.error .cancelled))) ∅ m) :
    c.Conduct result (Asleep woken stopped ms k) := by
  constructor
  · rintro cancelled q own m m' (hwaiting | hq | ⟨hc, hq | hq⟩) hm hm' hkeeps hspares
    · exact Or.inl hwaiting
    · exact Or.inr (Or.inl (hwoken.undisturbed hq hm hm' hkeeps hspares))
    · exact Or.inr (Or.inr ⟨hc, Or.inl (hstopped.undisturbed hq hm hm' hkeeps hspares)⟩)
    · exact Or.inr (Or.inr ⟨hc, Or.inr hq⟩)
  · rintro cancelled q r own m m'
      (⟨rfl | ⟨time, rfl⟩ | ⟨rfl, rfl⟩, rfl⟩ | hq | ⟨rfl, hq | ⟨o, rfl⟩⟩) hm hmove
    · cases hmove with
      | start hrun =>
        cases hrun
        refine ⟨.refl hm ∅, Or.inl ⟨Or.inr (Or.inl ⟨_, rfl⟩), ?_⟩⟩
        rw [m.made_self, Set.union_empty]
    · cases hmove with
      | wake _ hrun =>
        cases cancelled with
        | false =>
          obtain ⟨hpermits, hnext⟩ := hwoken.move (hwokenStart m hm) hm (.start hrun)
          exact ⟨hpermits, Or.inr (Or.inl hnext)⟩
        | true =>
          obtain ⟨hpermits, hnext⟩ :=
            hwoken.move (hwoken.forget (hwokenStart m hm)) hm (.start hrun)
          exact ⟨hpermits, Or.inr (Or.inl hnext)⟩
    · cases hmove with
      | resume hrun =>
        obtain ⟨hpermits, hnext⟩ :=
          hstopped.move (hstopped.forget (hstoppedStart m hm)) hm (.start hrun)
        exact ⟨hpermits, Or.inr (Or.inr ⟨rfl, Or.inl hnext⟩)⟩
    · obtain ⟨hpermits, hnext⟩ := hwoken.move hq hm hmove
      exact ⟨hpermits, Or.inr (Or.inl hnext)⟩
    · obtain ⟨hpermits, hnext⟩ := hstopped.move hq hm hmove
      exact ⟨hpermits, Or.inr (Or.inr ⟨rfl, Or.inl hnext⟩)⟩
    · exact absurd rfl (hmove.ne_settled o)
  · rintro cancelled q own m (⟨hq | hq | ⟨_, hq⟩, hown⟩ | hq | ⟨_, hq⟩)
    · exact Or.inl ⟨Or.inl hq, hown⟩
    · exact Or.inl ⟨Or.inr (Or.inl hq), hown⟩
    · exact Or.inl ⟨Or.inr (Or.inr ⟨rfl, hq⟩), hown⟩
    · exact Or.inr (Or.inl (hwoken.forget hq))
    · exact Or.inr (Or.inr ⟨rfl, hq⟩)
  · rintro q own m stop (⟨rfl | ⟨time, rfl⟩ | ⟨_, rfl⟩, hown⟩ | hq | ⟨_, hq | ⟨o, rfl⟩⟩) hm hstop
    · exact Or.inr (Or.inr ⟨rfl, Or.inr ⟨_, rfl⟩⟩)
    · exact Or.inl ⟨Or.inr (Or.inr ⟨rfl, rfl⟩), hown⟩
    · exact Or.inl ⟨Or.inr (Or.inr ⟨rfl, rfl⟩), hown⟩
    · exact Or.inr (Or.inl (hwoken.cancel hq hm hstop))
    · exact Or.inr (Or.inr ⟨rfl, Or.inl (hstopped.cancel hq hm hstop)⟩)
    · exact Or.inr (Or.inr ⟨rfl, Or.inr ⟨o, rfl⟩⟩)
  · rintro o own m (⟨hq | ⟨_, hq⟩ | ⟨hc, _⟩, _⟩ | hq | ⟨hc, _⟩) hm
    · cases hq
    · cases hq
    · cases hc
    · exact hwoken.ended hq hm
    · cases hc

/-- The process of a coroutine is that of its body, it goes on with what that ended in, or it has
ended. -/
def Wrapped (good : Bool → Proc → Set ℕ → Machine → Prop) (cancelled : Bool) (q : Proc)
    (own : Set ℕ) (m : Machine) : Prop :=
  (∃ r, q = r.bind Prog.guarded ∧ good cancelled r own m) ∨
    (cancelled = true ∧ ∃ o, q = .ready o Prog.guarded) ∨
    ∃ o', q = .settled o' ∧
      (cancelled = false → ∃ o, good false (.settled o) own m ∧ LetOut o o')

/-- What leaves a coroutine is that of its body, but for the fault by which an iteration stops. -/
theorem Conduct.wrapped (hgood : c.Conduct result good) :
    c.Conduct (fun m o' ↦ ∃ o, result m o ∧ LetOut o o') (Wrapped good) := by
  have hcount : ∀ {own : Set ℕ} {m : Machine} (id : ℕ), c.Holds m →
      c.Permits own m { m with store := { m.store with nextId := id } } := by
    intro own m id hm
    have hsame : m.store.SameBelow c.ground.base { m.store with nextId := id } :=
      ⟨rfl, rfl, rfl, rfl, rfl, rfl, rfl, rfl, le_rfl, fun _ _ ↦ rfl⟩
    obtain ⟨hm', hkeeps⟩ := hm.sameBelow hsame
    exact ⟨hm', hkeeps, rfl, le_rfl, fun _ _ _ ↦ rfl⟩
  constructor
  · rintro cancelled q own m m' (⟨r, rfl, hr⟩ | hready | ⟨o', rfl, ho⟩) hm hm' hkeeps hspares
    · exact Or.inl ⟨r, rfl, hgood.undisturbed hr hm hm' hkeeps hspares⟩
    · exact Or.inr (Or.inl hready)
    · refine Or.inr (Or.inr ⟨o', rfl, fun hc ↦ ?_⟩)
      obtain ⟨o, hend, hout⟩ := ho hc
      exact ⟨o, hgood.undisturbed hend hm hm' hkeeps hspares, hout⟩
  · rintro cancelled q s own m m' (⟨r, rfl, hr⟩ | ⟨rfl, o, rfl⟩ | ⟨o, rfl, _⟩) hm hmove
    · obtain ⟨m₁, p₁, hpermits, hnext, ⟨o, rfl, hrun⟩ | ⟨rfl, rfl⟩⟩ := hgood.move_bind hr hm hmove
      · obtain ⟨id, o', hguarded, hout⟩ := m₁.run_guarded o
        cases hguarded.symm.trans hrun
        have hlast : c.Permits (own ∪ m.made m₁) m₁ _ := hcount id hpermits.holds
        refine ⟨hpermits.trans hlast, Or.inr (Or.inr ⟨o', rfl, fun hc ↦ ⟨o, ?_, hout⟩⟩)⟩
        subst hc
        exact hgood.undisturbed hnext hpermits.holds hlast.holds hlast.keeps
          ⟨rfl, le_rfl, fun _ _ _ ↦ rfl⟩
      · exact ⟨hpermits, Or.inl ⟨p₁, rfl, hnext⟩⟩
    · cases hmove with
      | resume hrun =>
        obtain ⟨id, o', hguarded, _⟩ := m.run_guarded o
        cases hguarded.symm.trans hrun
        exact ⟨hcount id hm, Or.inr (Or.inr ⟨o', rfl, nofun⟩)⟩
    · exact absurd rfl (hmove.ne_settled o)
  · rintro cancelled q own m (⟨r, rfl, hr⟩ | ⟨_, hready⟩ | ⟨o', rfl, _⟩)
    · exact Or.inl ⟨r, rfl, hgood.forget hr⟩
    · exact Or.inr (Or.inl ⟨rfl, hready⟩)
    · exact Or.inr (Or.inr ⟨o', rfl, nofun⟩)
  · rintro q own m stop (⟨r, rfl, hr⟩ | ⟨_, o, rfl⟩ | ⟨o', rfl, _⟩) hm hstop
    · rw [Proc.awaited_bind] at hstop
      obtain ⟨hsame, hq | hq | hq⟩ := Machine.cancelWith_bind stop r Prog.guarded m
      · exact Or.inl ⟨_, hq, hsame ▸ hgood.cancel hr hm hstop⟩
      · exact Or.inr (Or.inl ⟨rfl, _, hq⟩)
      · exact Or.inr (Or.inr ⟨_, hq, nofun⟩)
    · exact Or.inr (Or.inl ⟨rfl, _, rfl⟩)
    · exact Or.inr (Or.inr ⟨o', rfl, nofun⟩)
  · rintro o' own m (⟨r, hr, _⟩ | ⟨hc, _⟩ | ⟨_, ho', h⟩) hm
    · exact absurd hr.symm (r.bind_ne_settled _ o')
    · cases hc
    · cases ho'
      obtain ⟨o, hend, hout⟩ := h rfl
      exact ⟨o, hgood.ended hend hm, hout⟩

/-! ### Awaitables of rules -/

section Shared

variable {f : Value}

/-- The future that is made has no outcome. -/
theorem future?_of_handOver (h : (w.handOver m).future? i = some o) : m.future? i = some o := by
  rcases w.handOver_cases m with ⟨_, _, hfutures⟩ | ⟨_, hfutures⟩
  · rw [Machine.future?, hfutures, Array.getElem?_push] at h
    split_ifs at h with hi
    · cases h
    · exact h
  · rwa [Machine.future?, hfutures] at h

/-- What has been noted for an awaitable is its future. -/
theorem mem_places_of_noted (h : w.Standing c.footing m) (hnoted : w.noted m = [f])
    (hf : f = .awaitable .task i ∨ f = .awaitable .future i) : i ∈ w.places m := by
  rw [OneShot.places, Set.mem_ofPred]
  cases h with
  | kept hnone => simp [hnone] at hnoted
  | own hrun hown =>
    rw [hown, OneShot.value] at hnoted
    rw [hrun]
    rcases hf with rfl | rfl <;> simp_all
  | run hrun hrunning =>
    rw [hrunning] at hnoted
    rw [hrun, hrunning]
    rcases hf with rfl | rfl <;> simp_all

/-- A use of the rule of an awaitable hands it over, if that has not been done. -/
theorem Holds.exists_shareOnce (hm : c.Holds m) (hw : w ∈ c.awaitables) (own : Set ℕ) : ∃ m' f,
    m.run (Rule.shareOnce w.cell w.value) = (m', .settled (.ok f)) ∧ c.Permits own m m' ∧
      (∃ i, f = .awaitable .task i ∨ f = .awaitable .future i) ∧ w.noted m' = [f] := by
  obtain ⟨m', f, hrun, hf, hcases⟩ :=
    w.exists_execWith_shareOnce (Machine.exec (Machine.depthLimit - 1)) hm.regular
  obtain ⟨m₁, f₁, hrun₁, _, hnoted, hregular, hstanding, hkeeps, _⟩ :=
    (hm.standing w hw).exists_shareOnce hm.regular
  cases hrun₁.symm.trans hrun
  refine ⟨m', f, hrun, ?_, hf, hnoted⟩
  rcases hcases with ⟨rfl, -, -⟩ | ⟨rfl, -⟩
  · have hother : ∀ v ∈ c.awaitables, v ≠ w → v.Spares m (w.handOver m) := fun v hv hne ↦
      OneShot.spares_handOver fun hcell ↦ hne (c.apart v hv w hw hcell.symm)
    refine ⟨⟨c.steady hm.ground (w.sameObjects_handOver m), hregular, fun v hv ↦ ?_,
      fun v hv hrun o ho ↦ ?_⟩, fun v hv ↦ ?_, (w.sameObjects_handOver m).spares _⟩
    · by_cases hvw : v = w
      · exact hvw ▸ hstanding
      · exact (hm.standing v hv).spares (hother v hv hvw)
    · exact hm.own v hv hrun o (future?_of_handOver ho)
    · by_cases hvw : v = w
      · exact hvw ▸ hkeeps
      · exact (hother v hv hvw).keeps
  · exact .refl hm own

/-- The compute of the rule has not begun, it waits for the one future, it was cancelled when that
had been filled, or it has ended in what the awaitable ends in. -/
def Sharing (c : Commons) (w : OneShot) (p : Prog) (cancelled : Bool) (q : Proc) (_ : Set ℕ)
    (m : Machine) : Prop :=
  q = .fresh p ∨ (∃ i ∈ w.places m, q = .awaiting i .done) ∨
    (cancelled = true ∧ ∃ o, q = .ready o .done) ∨
    ∃ o, q = .settled o ∧ (cancelled = false → c.ends w o)

/-- The compute of the rule begins by waiting for the one future, unless that has been filled. -/
theorem Holds.waits_of_start (hm : c.Holds m) (hw : w ∈ c.awaitables) {r : Rule}
    (hcell : r.binder.cell = w.cell) (hr : r.compute = .literal w.value) {source : Value} {q : Proc}
    (hrun : m.run (r.evaluate source) = (m', q)) (own : Set ℕ) :
    c.Permits own m m' ∧ ∃ i ∈ w.places m',
      q = .awaiting i .done ∨ ∃ o, q = .settled o ∧ m'.future? i = some o := by
  obtain ⟨m₁, f, hshare, hpermits, hf, hnoted⟩ := hm.exists_shareOnce hw own
  rw [OneShot.evaluate_eq hcell hr, Prog.andThen, Machine.run_bind, hshare, Machine.goOn] at hrun
  obtain ⟨rfl, f', i, hnoted', hf', hq⟩ := OneShot.waits_of_run_await hf hnoted hrun
  exact ⟨hpermits, i, mem_places_of_noted (hpermits.holds.standing w hw) hnoted' hf', hq⟩

/-- A rule that has an awaitable as its compute waits for the one future, and ends in what that is
filled with. -/
theorem conduct_sharing (hw : w ∈ c.awaitables) {r : Rule} (hcell : r.binder.cell = w.cell)
    (hr : r.compute = .literal w.value) (source : Value) :
    c.Conduct (fun _ o ↦ c.ends w o) (c.Sharing w (r.evaluate source)) := by
  constructor
  · rintro cancelled q own m m' (hq | ⟨i, hi, hq⟩ | hq | hq) _ _ hkeeps _
    · exact Or.inl hq
    · exact Or.inr (Or.inl ⟨i, places_of_keeps (hkeeps w hw) hi, hq⟩)
    · exact Or.inr (Or.inr (Or.inl hq))
    · exact Or.inr (Or.inr (Or.inr hq))
  · rintro cancelled q q' own m m' (rfl | ⟨i, hi, rfl⟩ | ⟨rfl, o, rfl⟩ | ⟨o, rfl, _⟩) hm hmove
    · cases hmove with
      | start hrun =>
        obtain ⟨hpermits, i, hi, hq⟩ := hm.waits_of_start hw hcell hr hrun own
        refine ⟨hpermits, ?_⟩
        rcases hq with rfl | ⟨o, rfl, ho⟩
        · exact Or.inr (Or.inl ⟨i, hi, rfl⟩)
        · exact Or.inr (Or.inr (Or.inr ⟨o, rfl, fun _ ↦ hpermits.holds.ends hw hi ho⟩))
    · cases hmove with
      | receive ho hrun =>
        cases hrun
        exact ⟨.refl hm own, Or.inr (Or.inr (Or.inr ⟨_, rfl, fun _ ↦ hm.ends hw hi ho⟩))⟩
    · cases hmove with
      | resume hrun =>
        cases hrun
        exact ⟨.refl hm own, Or.inr (Or.inr (Or.inr ⟨_, rfl, nofun⟩))⟩
    · exact absurd rfl (hmove.ne_settled o)
  · rintro cancelled q own m (hq | hq | ⟨_, hq⟩ | ⟨o, hq, _⟩)
    · exact Or.inl hq
    · exact Or.inr (Or.inl hq)
    · exact Or.inr (Or.inr (Or.inl ⟨rfl, hq⟩))
    · exact Or.inr (Or.inr (Or.inr ⟨o, hq, nofun⟩))
  · rintro q own m stop (rfl | ⟨i, hi, rfl⟩ | ⟨_, o, rfl⟩ | ⟨o, rfl, _⟩) _ hstop
    · exact Or.inr (Or.inr (Or.inr ⟨_, rfl, nofun⟩))
    · rw [Machine.cancelWith]
      cases ho : m.future? i with
      | some o => exact Or.inr (Or.inr (Or.inl ⟨rfl, _, rfl⟩))
      | none =>
        have hspares := OneShot.spares_of_subsides
          (hstop i (List.mem_singleton_self i) m (.refl m _) ho)
          (Holds.places_subset_guarded hw m)
        exact Or.inr (Or.inl ⟨i, places_of_keeps hspares.keeps hi, rfl⟩)
    · exact Or.inr (Or.inr (Or.inl ⟨rfl, _, rfl⟩))
    · exact Or.inr (Or.inr (Or.inr ⟨o, rfl, nofun⟩))
  · rintro o own m (hq | ⟨i, _, hq⟩ | ⟨hc, _⟩ | ⟨o', hq, ho⟩) _
    · cases hq
    · cases hq
    · cases hc
    · cases hq
      exact ho rfl

end Shared

end Commons

end Recast
