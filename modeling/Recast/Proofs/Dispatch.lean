import Recast.Proofs.Errand
import Recast.Proofs.Nesting

/-!
Programs on errands. What a program runs side by side are errands that add up, whether it waits for
all of them (`Errands.joining`) or races them and leaves behind those that it does not wait for
(`Errands.racing`). Parts of a race have to have begun their lookups when the first of them fails;
this is so when they first sleep equally long, if they sleep at all, and then begin their lookups
with the same turn (`Errands.race`, `Errands.race_asleep`).
-/

set_option autoImplicit false

namespace Recast

/-! ### Programs that end at once -/

/-- Wherever it is run, the program ends at once in a result, and what it changes lies above what
there was. -/
def Store.Instant (s : Store) (result : Outcome → Prop) (p : Prog) : Prop :=
  ∀ m, s.Stands m → ∃ s' o, m.run p = ({ m with store := s' }, .settled o) ∧
    m.store.SameBelow s.records.size s' ∧ result o

namespace Stint.Left

variable {s : Store} {leaves : Prop} {can : Bool} {m m₁ m₂ : Machine} {turns : ℕ}
  {todo : Multiset Value} {st st' : Stint}

/-- What is done with the rest of a turn. -/
theorem andThen (h : st.Left s leaves can m m₁ turns todo)
    (h' : st'.Left s leaves false m₁ m₂ st.turns st.todo) :
    Left s leaves can m m₂ turns todo
      ⟨st.begun ++ st'.begun, st'.todo, st'.turns, st.behind ++ st'.behind⟩ where
  of :=
    { deed := by
        rw [List.map_append]
        exact h.of.deed.trans h'.of.deed
      todo_eq := by rw [← h.of.todo_eq, ← h'.of.todo_eq, ← Multiset.coe_add, add_assoc]
      leaves_of_behind := fun hne ↦ by
        by_cases hnil : st.behind = []
        · exact h'.of.leaves_of_behind fun hnil' ↦ hne (List.append_eq_nil_iff.mpr ⟨hnil, hnil'⟩)
        · exact h.of.leaves_of_behind hnil }
  total_le := by
    have hfirst := h.total_le
    have hrest := h'.total_le
    simp only [total, List.map_append, List.sum_append] at hfirst hrest ⊢
    omega
  total_lt hcan := by
    have hfirst := h.total_lt hcan
    have hrest := h'.total_le
    simp only [total, List.map_append, List.sum_append] at hfirst hrest ⊢
    omega
  abroad := List.forall_mem_append.mpr ⟨h.abroad, h'.abroad⟩

/-- Nothing is begun and nothing is left behind. -/
theorem of_deed (h : m.Deed s m₁ [] []) (turns : ℕ) (todo : Multiset Value) :
    Left s leaves false m m₁ turns todo ⟨[], todo, turns, []⟩ :=
  ⟨⟨h, zero_add todo, fun hnil ↦ absurd rfl hnil⟩, le_rfl, nofun, nofun⟩

/-- A turn has been spent in which nothing is begun. -/
theorem of_spent (h : m.Deed s m₁ [] []) {more : ℕ} (hlt : turns < more) (todo : Multiset Value) :
    Left s leaves true m m₁ more todo ⟨[], todo, turns, []⟩ :=
  ⟨⟨h, zero_add todo, fun hnil ↦ absurd rfl hnil⟩, hlt.le, fun _ ↦ hlt, nofun⟩

/-- What changes only the store above what there was can be done with the rest of a turn. -/
theorem idle (h : st.Left s leaves can m m₁ turns todo) (hdeed : m₁.Deed s m₂ [] []) :
    st.Left s leaves can m m₂ turns todo := by
  have hall := h.andThen (of_deed hdeed st.turns st.todo)
  simpa using hall

/-- Lookups may begin with the start of a turn. -/
theorem following (h : st.Left s leaves can m₁ m₂ turns todo) {begun : List Value}
    (hdeed : m.Deed s m₁ begun []) :
    Left s leaves can m m₂ turns (begun + todo)
      ⟨begun ++ st.begun, st.todo, st.turns, st.behind⟩ where
  of :=
    { deed := hdeed.trans h.of.deed
      todo_eq := by rw [← h.of.todo_eq, ← Multiset.coe_add, add_assoc]
      leaves_of_behind := h.of.leaves_of_behind }
  total_le := h.total_le
  total_lt := h.total_lt
  abroad := h.abroad

/-- What changes only the store above what there was can be done with the start of a turn. -/
theorem after (h : st.Left s leaves can m₁ m₂ turns todo) (hdeed : m.Deed s m₁ [] []) :
    st.Left s leaves can m m₂ turns todo := by
  have hall := h.following hdeed
  rwa [Multiset.coe_nil, zero_add] at hall

end Stint.Left

namespace Errand

variable {s : Store} {leaves : Prop} {result result' : Outcome → Prop} {turns turns' : ℕ}
  {todo : Multiset Value} {m : Machine} {p : Proc} {f : Outcome → Prog}

/-- What has not begun begins with its next turn. -/
theorem of_run {p : Prog} (h : ∀ m, s.Stands m → ∃ st : Stint,
      st.Left s leaves true m (m.run p).1 turns todo ∧
        Errand s leaves result st.turns st.todo (m.run p).2) :
    Errand s leaves result turns todo (.fresh p) :=
  of_turn rfl (fun _ _ hcan ↦ nomatch hcan) fun m hm _ ↦ h m hm

theorem of_instant {p : Prog} (h : s.Instant result p) :
    Errand s leaves result 1 0 (.fresh p) := by
  refine of_run fun m hm ↦ ?_
  obtain ⟨s', o, hrun, hbelow, ho⟩ := h m hm
  rw [hrun]
  exact ⟨_, .of_spent (.of_sameBelow hm hbelow) Nat.one_pos 0, .ended ho⟩

/-- A run that has ended is followed at once by the program. -/
theorem goOn (h : Errand s leaves result turns todo p) (hm : s.Stands m)
    (hf : ∀ o, result o → s.Instant result' (f o))
    (hopen : p.isOpen = true → Errand s leaves result' turns todo (p.bind f)) :
    m.Deed s (Machine.goOn f (m, p)).1 [] [] ∧
      Errand s leaves result' turns todo (Machine.goOn f (m, p)).2 := by
  cases hp : p.isOpen with
  | true =>
    rw [Machine.goOn_of_ne (Proc.isOpen_eq_true_iff.mp hp)]
    exact ⟨.refl hm, hopen hp⟩
  | false =>
    obtain ⟨o, rfl⟩ := Proc.isOpen_eq_false_iff.mp hp
    obtain ⟨rfl, ho⟩ := h.of_settled
    obtain ⟨s', o', hrun, hbelow, ho'⟩ := hf o ho m hm
    rw [Machine.goOn, hrun]
    exact ⟨.of_sameBelow hm hbelow, .ended ho'⟩

theorem isOpen_bind (p : Proc) (f : Outcome → Prog) : (p.bind f).isOpen = true :=
  Proc.isOpen_eq_true_iff.mpr (p.bind_ne_settled f)

theorem still_bind (h : Errand s leaves result turns todo p) (hopen : p.isOpen = true)
    (hm : s.Stands m) (hcan : m.canMove (p.bind f) = false) :
    Machine.advance (p.bind f) m = (m, p.bind f) ∧ Machine.wake? (p.bind f) ≠ none := by
  rw [Machine.canMove_bind hopen] at hcan
  rw [Machine.advance_bind, h.still hm hcan, Machine.wake?_bind,
    Machine.goOn_of_ne (Proc.isOpen_eq_true_iff.mp hopen)]
  exact ⟨rfl, h.wakes hopen hm hcan⟩

/-- Followed by a program that ends at once, a process is on the same errand. -/
theorem bind (h : Errand s leaves result turns todo p) (hopen : p.isOpen = true)
    (hf : ∀ o, result o → s.Instant result' (f o)) :
    Errand s leaves result' turns todo (p.bind f) := by
  induction turns using Nat.strong_induction_on generalizing p todo with
  | _ turns ih =>
    refine of_turn (isOpen_bind p f) (fun m hm ↦ h.still_bind hopen hm) fun m hm hcan ↦ ?_
    rw [Machine.canMove_bind hopen] at hcan
    obtain ⟨st, hleft, hnext⟩ := h.turn hm
    rw [hcan] at hleft
    have hlt := (Nat.le_add_right st.turns _).trans_lt (hleft.total_lt rfl)
    obtain ⟨hdeed, hgoOn⟩ := hnext.goOn hleft.of.deed.stands hf fun hq ↦ ih _ hlt hnext hq
    rw [Machine.advance_bind]
    exact ⟨st, hleft.idle hdeed, hgoOn⟩

/-- A process that sleeps goes on when it wakes. -/
theorem sleeping {k : Outcome → Prog}
    (h : Errand s leaves result turns todo (.fresh (k (.ok .null)))) (wake : ℕ) :
    Errand s leaves result turns todo (.sleeping wake k) := by
  refine of_turn rfl (fun m _ hcan ↦ ?_) fun m hm hcan ↦ ?_
  · exact ⟨if_neg (of_decide_eq_false hcan), nofun⟩
  · have hwoken :
        Machine.advance (.sleeping wake k) m = Machine.advance (.fresh (k (.ok .null))) m :=
      if_pos (of_decide_eq_true hcan)
    rw [hwoken]
    exact h.turn hm

theorem sleep {k : Outcome → Prog}
    (h : Errand s leaves result turns todo (.fresh (k (.ok .null)))) (ms : ℕ) :
    Errand s leaves result (turns + 1) todo (.fresh (.sleep ms k)) :=
  of_run fun _ hm ↦ ⟨_, .of_spent (.refl hm) (Nat.lt_succ_self turns) todo, h.sleeping _⟩

end Errand

/-! ### Waiting for all -/

namespace Machine

/-- Go on when all parts have ended; else wait for them. -/
def joinOn (parts : List Proc) (k : Option (List Outcome) → Prog) (m : Machine) : Machine × Proc :=
  match Proc.outcomes? parts with
  | some os => m.run (k (some os))
  | none => (m, .joining false parts k)

theorem advance_joining (parts : List Proc) (k : Option (List Outcome) → Prog) (m : Machine) :
    advance (.joining false parts k) m =
      joinOn (advanceAll parts m).2 k (advanceAll parts m).1 := by
  rw [advance]
  rfl

theorem joinOn_of_any {parts : List Proc} (hopen : parts.any Proc.isOpen = true)
    (k : Option (List Outcome) → Prog) (m : Machine) :
    m.joinOn parts k = (m, .joining false parts k) := by
  unfold joinOn
  cases hos : Proc.outcomes? parts with
  | none => rfl
  | some os =>
    obtain rfl := Proc.outcomes?_eq_some_iff.mp hos
    cases hopen.symm.trans (Proc.any_isOpen_eq_false_iff.mpr ⟨os, rfl⟩)

/-- Go on when a part has failed, and leave the others behind, or when all have succeeded; else wait
for them. -/
def raceOn (parts : List Proc) (k : Except Raised (List Value) → Prog) (m : Machine) :
    Machine × Proc :=
  match Proc.firstFault? parts with
  | some e => run (k (.error e)) { m with strays := m.strays ++ parts.filter Proc.isOpen }
  | none =>
    match Proc.values? parts with
    | some vs => m.run (k (.ok vs))
    | none => (m, .racing parts k)

theorem advance_racing (parts : List Proc) (k : Except Raised (List Value) → Prog) (m : Machine) :
    advance (.racing parts k) m = raceOn (advanceAll parts m).2 k (advanceAll parts m).1 := by
  rw [advance]
  rfl

end Machine

namespace Proc

theorem values?_eq_some_iff {parts : List Proc} {vs : List Value} :
    values? parts = some vs ↔ parts = (vs.map Except.ok).map .settled := by
  induction parts generalizing vs with
  | nil => cases vs <;> simp [values?]
  | cons p parts ih =>
    cases vs with
    | nil =>
      cases p with
      | settled o => cases o <;> simp [values?]
      | _ => simp [values?]
    | cons v vs =>
      cases p with
      | settled o =>
        cases o with
        | error e => simp [values?]
        | ok w =>
          simp only [values?, Option.map_eq_some_iff, List.cons.injEq, List.map_cons, settled.injEq,
            Except.ok.injEq]
          constructor
          · rintro ⟨us, hus, rfl, rfl⟩
            exact ⟨rfl, ih.mp hus⟩
          · rintro ⟨rfl, hparts⟩
            exact ⟨vs, ih.mpr hparts, rfl, rfl⟩
      | _ => simp [values?]

theorem mem_of_firstFault? {parts : List Proc} {e : Raised} (h : firstFault? parts = some e) :
    settled (.error e) ∈ parts := by
  induction parts with
  | nil => cases h
  | cons p parts ih =>
    cases p with
    | settled o =>
      cases o with
      | error e' =>
        cases h
        exact List.mem_cons_self
      | ok v => exact List.mem_cons_of_mem _ (ih h)
    | _ => exact List.mem_cons_of_mem _ (ih h)

/-- Where no part has failed and not all have succeeded, one has not ended. -/
theorem any_isOpen_of_race {parts : List Proc} (hfault : firstFault? parts = none)
    (hvalues : values? parts = none) : parts.any isOpen = true := by
  induction parts with
  | nil => cases hvalues
  | cons p parts ih =>
    cases p with
    | settled o =>
      cases o with
      | error e => cases hfault
      | ok v => exact ih hfault (Option.map_eq_none_iff.mp hvalues)
    | _ => rfl

end Proc

namespace Errands

variable {s : Store} {leaves : Prop} {results : List (Outcome → Prop)} {result : Outcome → Prop}
  {turns : ℕ} {todo : Multiset Value} {m : Machine} {parts : List Proc}

theorem exists_result (h : Errands s leaves results turns todo parts) {o : Outcome}
    (ho : .settled o ∈ parts) : ∃ result ∈ results, result o := by
  induction h with
  | nil => cases ho
  | cons h _ ih =>
    rcases List.mem_cons.mp ho with rfl | hrest
    · exact ⟨_, List.mem_cons_self, h.of_settled.2⟩
    · obtain ⟨result, hmem, hresult⟩ := ih hrest
      exact ⟨result, List.mem_cons_of_mem _ hmem, hresult⟩

section Joining

variable {k : Option (List Outcome) → Prog}

/-- When all parts have ended, the process that waits for them ends at once. -/
theorem joinOn (h : Errands s leaves results turns todo parts) (hm : s.Stands m)
    (hk : ∀ os, List.Forall₂ (fun result o ↦ result o) results os →
      s.Instant result (k (some os)))
    (hopen : parts.any Proc.isOpen = true →
      Errand s leaves result turns todo (.joining false parts k)) :
    m.Deed s (m.joinOn parts k).1 [] [] ∧
      Errand s leaves result turns todo (m.joinOn parts k).2 := by
  cases hany : parts.any Proc.isOpen with
  | true =>
    rw [Machine.joinOn_of_any hany]
    exact ⟨.refl hm, hopen hany⟩
  | false =>
    obtain ⟨os, rfl⟩ := Proc.any_isOpen_eq_false_iff.mp hany
    obtain ⟨rfl, hos⟩ := h.of_settled
    obtain ⟨s', o, hrun, hbelow, ho⟩ := hk os hos m hm
    rw [Machine.joinOn, Proc.outcomes?_eq_some_iff.mpr rfl]
    dsimp only
    rw [hrun]
    exact ⟨.of_sameBelow hm hbelow, .ended ho⟩

theorem still_joining (h : Errands s leaves results turns todo parts)
    (hopen : parts.any Proc.isOpen = true) (hm : s.Stands m) (hcan : m.anyCanMove parts = false) :
    Machine.advance (.joining false parts k) m = (m, .joining false parts k) ∧
      Machine.wake? (.joining false parts k) ≠ none := by
  rw [Machine.advance_joining, h.still hm hcan, Machine.joinOn_of_any hopen]
  exact ⟨rfl, h.wakes hopen hm hcan⟩

/-- A process that waits for all its parts is on all their errands. -/
theorem joining (h : Errands s leaves results turns todo parts)
    (hopen : parts.any Proc.isOpen = true)
    (hk : ∀ os, List.Forall₂ (fun result o ↦ result o) results os →
      s.Instant result (k (some os))) :
    Errand s leaves result turns todo (.joining false parts k) := by
  induction turns using Nat.strong_induction_on generalizing parts todo with
  | _ turns ih =>
    refine Errand.of_turn rfl (fun m hm ↦ h.still_joining hopen hm) fun m hm hcan ↦ ?_
    obtain ⟨st, hleft, hnext⟩ := h.turn hm
    have hcan : m.anyCanMove parts = true := hcan
    rw [hcan] at hleft
    have hlt := (Nat.le_add_right st.turns _).trans_lt (hleft.total_lt rfl)
    obtain ⟨hdeed, hjoin⟩ := hnext.joinOn hleft.of.deed.stands hk fun hany ↦ ih _ hlt hnext hany
    rw [Machine.advance_joining]
    exact ⟨st, hleft.idle hdeed, hjoin⟩

end Joining

end Errands

/-! ### Lookups that begin together -/

/-- With its next turn, whenever that comes, the process begins all lookups of its errand. -/
structure Errand.Prompt (s : Store) (leaves : Prop) (result : Outcome → Prop) (turns : ℕ)
    (todo : Multiset Value) (p : Proc) : Prop where
  errand : Errand s leaves result turns todo p
  turn {m : Machine} (hm : s.Stands m) : ∃ st : Stint,
    st.Left s leaves (m.canMove p) m (Machine.advance p m).1 turns todo ∧ st.todo = 0 ∧
      Errand s leaves result st.turns 0 (Machine.advance p m).2

/-- So do processes side by side. -/
structure Errands.Prompt (s : Store) (leaves : Prop) (results : List (Outcome → Prop)) (turns : ℕ)
    (todo : Multiset Value) (ps : List Proc) : Prop where
  errands : Errands s leaves results turns todo ps
  turn {m : Machine} (hm : s.Stands m) : ∃ st : Stint,
    st.Left s leaves (m.anyCanMove ps) m (Machine.advanceAll ps m).1 turns todo ∧ st.todo = 0 ∧
      Errands s leaves results st.turns 0 (Machine.advanceAll ps m).2

theorem Stint.Left.todo_eq_zero {s : Store} {leaves : Prop} {can : Bool} {m m' : Machine}
    {turns : ℕ} {st : Stint} (h : st.Left s leaves can m m' turns 0) : st.todo = 0 :=
  Multiset.le_zero.mp (h.of.todo_eq ▸ Multiset.le_add_left _ _)

section Prompt

variable {s : Store} {leaves : Prop} {result result' : Outcome → Prop}
  {results : List (Outcome → Prop)} {turns turns' : ℕ} {todo todo' : Multiset Value} {m : Machine}
  {p : Proc} {ps : List Proc}

theorem Errand.prompt (h : Errand s leaves result turns 0 p) :
    Prompt s leaves result turns 0 p where
  errand := h
  turn hm := by
    obtain ⟨st, hleft, hnext⟩ := h.turn hm
    have hzero := hleft.todo_eq_zero
    exact ⟨st, hleft, hzero, hzero ▸ hnext⟩

/-- A process that has not begun is told by its run. -/
theorem Errand.Prompt.of_run {prog : Prog} (h : ∀ m, s.Stands m → ∃ st : Stint,
      st.Left s leaves true m (m.run prog).1 turns todo ∧ st.todo = 0 ∧
        Errand s leaves result st.turns 0 (m.run prog).2) :
    Prompt s leaves result turns todo (.fresh prog) where
  errand := Errand.of_run fun m hm ↦ by
    obtain ⟨st, hleft, hzero, hnext⟩ := h m hm
    exact ⟨st, hleft, hzero.symm ▸ hnext⟩
  turn hm := h _ hm

theorem Errand.Prompt.bind (h : Prompt s leaves result turns todo p) (hopen : p.isOpen = true)
    {f : Outcome → Prog} (hf : ∀ o, result o → s.Instant result' (f o)) :
    Prompt s leaves result' turns todo (p.bind f) where
  errand := h.errand.bind hopen hf
  turn := by
    intro m hm
    obtain ⟨st, hleft, hzero, hnext⟩ := h.turn hm
    obtain ⟨hdeed, hgoOn⟩ := hnext.goOn hleft.of.deed.stands hf fun hq ↦ hnext.bind hq hf
    rw [Machine.canMove_bind hopen, Machine.advance_bind]
    exact ⟨st, hleft.idle hdeed, hzero, hgoOn⟩

namespace Errands

theorem prompt (h : Errands s leaves results turns 0 ps) : Prompt s leaves results turns 0 ps where
  errands := h
  turn hm := by
    obtain ⟨st, hleft, hnext⟩ := h.turn hm
    have hzero := hleft.todo_eq_zero
    exact ⟨st, hleft, hzero, hzero ▸ hnext⟩

theorem Prompt.cons (h : Errand.Prompt s leaves result turns todo p)
    (hrest : Prompt s leaves results turns' todo' ps) :
    Prompt s leaves (result :: results) (turns + turns') (todo + todo') (p :: ps) where
  errands := .cons h.errand hrest.errands
  turn := by
    intro m hm
    obtain ⟨st, hleft, hzero, hnext⟩ := h.turn hm
    have hdeed := hleft.of.deed
    obtain ⟨st', hleft', hzero', hnext'⟩ := hrest.turn hdeed.stands
    have hsame := Machine.anyCanMove_congr hdeed.now_eq
      (hdeed.stands.futures.trans hm.futures.symm) ps
    have hboth := hleft.join hleft'
    rw [hsame] at hboth
    refine ⟨st.join st', hboth, ?_, .cons hnext hnext'⟩
    rw [Stint.join, hzero, hzero', add_zero]

theorem Prompt.joining (h : Prompt s leaves results turns todo ps)
    (hopen : ps.any Proc.isOpen = true) {k : Option (List Outcome) → Prog}
    (hk : ∀ os, List.Forall₂ (fun result o ↦ result o) results os →
      s.Instant result (k (some os))) :
    Errand.Prompt s leaves result turns todo (.joining false ps k) where
  errand := h.errands.joining hopen hk
  turn := by
    intro m hm
    obtain ⟨st, hleft, hzero, hnext⟩ := h.turn hm
    obtain ⟨hdeed, hjoin⟩ := hnext.joinOn hleft.of.deed.stands hk fun hany ↦ hnext.joining hany hk
    rw [Machine.advance_joining]
    exact ⟨st, hleft.idle hdeed, hzero, hjoin⟩

end Errands

end Prompt

/-! ### Races -/

/-- What follows a race ends at once, whether all have succeeded or one has failed; processes may
be left behind where one can fail. -/
structure Errands.Decides (s : Store) (leaves : Prop) (results : List (Outcome → Prop))
    (result : Outcome → Prop) (k : Except Raised (List Value) → Prog) : Prop where
  leaves_of_error : ∀ r ∈ results, ∀ e, r (.error e) → leaves
  succeeded : ∀ vs, List.Forall₂ (fun (r : Outcome → Prop) v ↦ r (.ok v)) results vs →
    s.Instant result (k (.ok vs))
  failed : ∀ e, (∃ r ∈ results, r (.error e)) → s.Instant result (k (.error e))

namespace Errands

variable {s : Store} {leaves : Prop} {results : List (Outcome → Prop)} {result : Outcome → Prop}
  {turns : ℕ} {todo : Multiset Value} {m : Machine} {parts : List Proc}
  {k : Except Raised (List Value) → Prog}

/-- When a part has failed, the race ends at once and leaves the other parts behind; when all have
succeeded, it ends at once as well. -/
theorem raceOn (h : Errands s leaves results turns todo parts) (hm : s.Stands m)
    (hdecides : Decides s leaves results result k)
    (hzero : Proc.firstFault? parts ≠ none → todo = 0)
    (hopen : parts.any Proc.isOpen = true → Proc.firstFault? parts = none →
      Errand s leaves result turns todo (.racing parts k)) :
    ∃ st : Stint, st.Left s leaves false m (m.raceOn parts k).1 turns todo ∧
      Errand s leaves result st.turns st.todo (m.raceOn parts k).2 := by
  rw [Machine.raceOn]
  cases hfault : Proc.firstFault? parts with
  | some e =>
    obtain rfl := hzero (by simp [hfault])
    obtain ⟨r, hr, he⟩ := h.exists_result (Proc.mem_of_firstFault? hfault)
    obtain ⟨strays, hmap, habroad, hsum⟩ := h.exists_abroad
    have hstands : s.Stands { m with strays := m.strays ++ parts.filter Proc.isOpen } :=
      ⟨hm.types, hm.futures, hm.tasks, hm.size_le, hm.records⟩
    obtain ⟨s', o, hrun, hbelow, ho⟩ := hdecides.failed e ⟨r, hr, he⟩ _ hstands
    dsimp only
    rw [hrun]
    refine ⟨⟨[], 0, 0, strays⟩, ⟨⟨⟨hstands.sameBelow hbelow, hbelow.now, ?_, ?_⟩, rfl,
      fun _ ↦ hdecides.leaves_of_error r hr e he⟩, ?_, nofun, habroad⟩, .ended ho⟩
    · exact hbelow.lookups.trans (List.append_nil _).symm
    · rw [hmap]
    · exact (Nat.zero_add _).trans_le hsum
  | none =>
    dsimp only
    cases hvalues : Proc.values? parts with
    | some vs =>
      obtain rfl := Proc.values?_eq_some_iff.mp hvalues
      obtain ⟨rfl, hos⟩ := h.of_settled
      obtain ⟨s', o, hrun, hbelow, ho⟩ :=
        hdecides.succeeded vs (List.forall₂_map_right_iff.mp hos) m hm
      dsimp only
      rw [hrun]
      exact ⟨_, .of_deed (.of_sameBelow hm hbelow) turns 0, .ended ho⟩
    | none =>
      exact ⟨_, .of_deed (.refl hm) turns todo,
        hopen (Proc.any_isOpen_of_race hfault hvalues) hfault⟩

/-- A race whose parts begin their lookups with the same turn is on all their errands. -/
theorem racing (h : Prompt s leaves results turns todo parts)
    (hdecides : Decides s leaves results result k) (hopen : parts.any Proc.isOpen = true)
    (hfault : Proc.firstFault? parts = none) :
    Errand s leaves result turns todo (.racing parts k) := by
  induction turns using Nat.strong_induction_on generalizing parts todo with
  | _ turns ih =>
    refine Errand.of_turn rfl (fun m hm hcan ↦ ?_) fun m hm hcan ↦ ?_
    · have hvalues : Proc.values? parts = none := by
        cases hvs : Proc.values? parts with
        | none => rfl
        | some vs =>
          obtain rfl := Proc.values?_eq_some_iff.mp hvs
          cases hopen.symm.trans (Proc.any_isOpen_eq_false_iff.mpr ⟨_, rfl⟩)
      rw [Machine.advance_racing, h.errands.still hm hcan, Machine.raceOn, hfault, hvalues]
      exact ⟨rfl, h.errands.wakes hopen hm hcan⟩
    · have hcan : m.anyCanMove parts = true := hcan
      obtain ⟨st, hleft, hzero, hnext⟩ := h.turn hm
      rw [hcan] at hleft
      have hlt := (Nat.le_add_right st.turns _).trans_lt (hleft.total_lt rfl)
      obtain ⟨st', hleft', hnext'⟩ := hnext.raceOn hleft.of.deed.stands hdecides (fun _ ↦ rfl)
        fun hany hnone ↦ ih _ hlt hnext.prompt hany hnone
      rw [Machine.advance_racing]
      exact ⟨_, hleft.andThen (hzero ▸ hleft'), hnext'⟩

end Errands

/-! ### Programs that race -/

/-- Wherever the program is run, it begins no lookups yet and does not fail, and what is left of it
begins them all with its next turn. -/
def Errand.Primed (s : Store) (leaves : Prop) (result : Outcome → Prop) (turns : ℕ)
    (todo : Multiset Value) (p : Prog) : Prop :=
  ∀ m, s.Stands m → m.Deed s (m.run p).1 [] [] ∧ Prompt s leaves result turns todo (m.run p).2 ∧
    ∀ e, (m.run p).2 ≠ .settled (.error e)

/-- So it is with programs that are started side by side. -/
inductive Errands.Primed (s : Store) (leaves : Prop) :
    List (Outcome → Prop) → ℕ → Multiset Value → List Prog → Prop
  | nil : Primed s leaves [] 0 0 []
  | cons {result : Outcome → Prop} {results : List (Outcome → Prop)} {turns turns' : ℕ}
      {todo todo' : Multiset Value} {p : Prog} {progs : List Prog}
      (h : Errand.Primed s leaves result turns todo p)
      (hrest : Primed s leaves results turns' todo' progs) :
    Primed s leaves (result :: results) (turns + turns') (todo + todo') (p :: progs)

theorem Proc.firstFault?_cons_of_ne {p : Proc} (h : ∀ e, p ≠ .settled (.error e))
    (rest : List Proc) : firstFault? (p :: rest) = firstFault? rest := by
  cases p with
  | settled o =>
    cases o with
    | error e => exact absurd rfl (h e)
    | ok v => rfl
  | _ => rfl

namespace Machine

theorem run_race {parts : List Prog} (h : parts ≠ []) (k : Except Raised (List Value) → Prog)
    (m : Machine) : m.run (.race parts k) = (m, .racing (parts.map .fresh) k) := by
  cases parts with
  | nil => exact absurd rfl h
  | cons p rest => rfl

/-- Programs that first sleep do nothing but fall asleep. -/
theorem advanceAll_map_sleep (ms : ℕ) (ks : List (Outcome → Prog)) (m : Machine) :
    advanceAll ((ks.map (Prog.sleep ms)).map .fresh) m =
      (m, ks.map (Proc.sleeping (m.store.now + ms))) := by
  induction ks with
  | nil => rfl
  | cons k ks ih =>
    have hfirst : advance (.fresh (.sleep ms k)) m = (m, .sleeping (m.store.now + ms) k) := rfl
    simp only [List.map_cons, advanceAll, hfirst, ih]

theorem anyCanMove_map_sleeping {ks : List (Outcome → Prog)} (h : ks ≠ []) (wake : ℕ)
    (m : Machine) : m.anyCanMove (ks.map (Proc.sleeping wake)) = decide (wake ≤ m.store.now) := by
  induction ks with
  | nil => exact absurd rfl h
  | cons k ks ih =>
    by_cases hks : ks = []
    · simp [hks, anyCanMove, canMove]
    · simp [anyCanMove, canMove, ih hks]

theorem advanceAll_map_sleeping_of_lt {wake : ℕ} {m : Machine} (h : ¬ wake ≤ m.store.now)
    (ks : List (Outcome → Prog)) :
    advanceAll (ks.map (Proc.sleeping wake)) m = (m, ks.map (Proc.sleeping wake)) := by
  induction ks with
  | nil => rfl
  | cons k ks ih => simp only [List.map_cons, advanceAll, advance, if_neg h, ih]

theorem raceOn_map_sleeping {ks : List (Outcome → Prog)} (h : ks ≠ []) (wake : ℕ)
    (k : Except Raised (List Value) → Prog) (m : Machine) :
    m.raceOn (ks.map (Proc.sleeping wake)) k = (m, .racing (ks.map (Proc.sleeping wake)) k) := by
  have hfault : ∀ ks : List (Outcome → Prog),
      Proc.firstFault? (ks.map (Proc.sleeping wake)) = none := by
    intro ks
    induction ks with
    | nil => rfl
    | cons k ks ih => exact ih
  rw [raceOn, hfault]
  cases ks with
  | nil => exact absurd rfl h
  | cons k ks => rfl

/-- Processes that wake at the same time go on together. -/
theorem advanceAll_map_sleeping {s : Store} {ks : List (Outcome → Prog)}
    (h : ∀ prog ∈ ks.map fun f ↦ f (.ok .null), ∀ m, s.Stands m → m.Deed s (m.run prog).1 [] [])
    {m : Machine} (hm : s.Stands m) {wake : ℕ} (hwake : wake ≤ m.store.now) :
    advanceAll (ks.map (Proc.sleeping wake)) m =
      advanceAll ((ks.map fun f ↦ f (.ok .null)).map .fresh) m := by
  induction ks generalizing m with
  | nil => rfl
  | cons f ks ih =>
    obtain ⟨hdeed, hrest⟩ := List.forall_mem_cons.mp h
    have hdeed := hdeed m hm
    have hfirst : advance (.sleeping wake f) m = m.run (f (.ok .null)) := if_pos hwake
    have hothers := ih hrest hdeed.stands (hdeed.now_eq ▸ hwake)
    simp only [List.map_cons, advanceAll, hfirst, hothers]
    rfl

end Machine

namespace Errands

variable {s : Store} {leaves : Prop} {results : List (Outcome → Prop)} {result : Outcome → Prop}
  {turns : ℕ} {todo : Multiset Value} {m : Machine} {k : Except Raised (List Value) → Prog}

namespace Primed

/-- After their first turns all are about to begin their lookups, and none has failed. -/
theorem advanceAll {progs : List Prog} (h : Primed s leaves results turns todo progs)
    (hm : s.Stands m) :
    m.Deed s (Machine.advanceAll (progs.map .fresh) m).1 [] [] ∧
      Prompt s leaves results turns todo (Machine.advanceAll (progs.map .fresh) m).2 ∧
      Proc.firstFault? (Machine.advanceAll (progs.map .fresh) m).2 = none := by
  induction h generalizing m with
  | nil => exact ⟨.refl hm, Errands.nil.prompt, rfl⟩
  | cons h _ ih =>
    obtain ⟨hdeed, hprompt, hok⟩ := h m hm
    obtain ⟨hdeed', hprompt', hfault⟩ := ih hdeed.stands
    exact ⟨hdeed.trans hdeed', .cons hprompt hprompt',
      (Proc.firstFault?_cons_of_ne hok _).trans hfault⟩

theorem deed {progs : List Prog} (h : Primed s leaves results turns todo progs) :
    ∀ prog ∈ progs, ∀ m, s.Stands m → m.Deed s (m.run prog).1 [] [] := by
  induction h with
  | nil => exact nofun
  | cons h _ ih => exact List.forall_mem_cons.mpr ⟨fun m hm ↦ (h m hm).1, ih⟩

end Primed

section Race

variable (hdecides : Decides s leaves results result k)

include hdecides

/-- A race that has just begun, of programs that have yet to begin their lookups. -/
theorem exists_raceOn_primed {progs : List Prog} (h : Primed s leaves results turns todo progs)
    (hm : s.Stands m) :
    ∃ st : Stint,
      st.Left s leaves true m (Machine.raceOn (Machine.advanceAll (progs.map .fresh) m).2 k
        (Machine.advanceAll (progs.map .fresh) m).1).1 (turns + 1) todo ∧
      Errand s leaves result st.turns st.todo
        (Machine.raceOn (Machine.advanceAll (progs.map .fresh) m).2 k
          (Machine.advanceAll (progs.map .fresh) m).1).2 := by
  obtain ⟨hdeed, hprompt, hfault⟩ := h.advanceAll hm
  obtain ⟨st, hleft, hnext⟩ := hprompt.errands.raceOn hdeed.stands hdecides
    (fun hne ↦ absurd hfault hne) (fun hopen hnone ↦ racing hprompt hdecides hopen hnone)
  exact ⟨_, (Stint.Left.of_spent hdeed (Nat.lt_succ_self turns) todo).andThen hleft, hnext⟩

/-- A race of programs that have yet to begin their lookups, all with the same turn. -/
theorem race {progs : List Prog} (hne : progs ≠ [])
    (h : Primed s leaves results turns todo progs) :
    Errand s leaves result (turns + 2) todo (.fresh (.race progs k)) := by
  have hracing : Errand s leaves result (turns + 1) todo (.racing (progs.map .fresh) k) := by
    refine Errand.of_turn rfl (fun m _ hcan ↦ ?_) fun m hm _ ↦ ?_
    · obtain ⟨p, rest, rfl⟩ := List.exists_cons_of_ne_nil hne
      cases hcan
    · rw [Machine.advance_racing]
      exact exists_raceOn_primed hdecides h hm
  refine Errand.of_run fun m hm ↦ ?_
  rw [Machine.run_race hne]
  exact ⟨_, .of_spent (.refl hm) (Nat.lt_succ_self _) todo, hracing⟩

/-- A race of such programs that first sleep, all equally long. -/
theorem race_asleep {ks : List (Outcome → Prog)} (hne : ks ≠ [])
    (h : Primed s leaves results turns todo (ks.map fun f ↦ f (.ok .null))) (ms : ℕ) :
    Errand s leaves result (turns + 3) todo (.fresh (.race (ks.map (Prog.sleep ms)) k)) := by
  have hmap : ks.map (Prog.sleep ms) ≠ [] := by simpa using hne
  have hasleep : ∀ wake, Errand s leaves result (turns + 1) todo
      (.racing (ks.map (Proc.sleeping wake)) k) := by
    intro wake
    refine Errand.of_turn rfl (fun m _ hcan ↦ ?_) fun m hm hcan ↦ ?_
    · have hlate : ¬ wake ≤ m.store.now :=
        of_decide_eq_false ((Machine.anyCanMove_map_sleeping hne wake m).symm.trans hcan)
      rw [Machine.advance_racing, Machine.advanceAll_map_sleeping_of_lt hlate,
        Machine.raceOn_map_sleeping hne]
      refine ⟨rfl, ?_⟩
      obtain ⟨f, rest, rfl⟩ := List.exists_cons_of_ne_nil hne
      exact (Machine.earlier_ne_none_iff _ _).mpr (Or.inl nofun)
    · have hwake : wake ≤ m.store.now :=
        of_decide_eq_true ((Machine.anyCanMove_map_sleeping hne wake m).symm.trans hcan)
      rw [Machine.advance_racing, Machine.advanceAll_map_sleeping h.deed hm hwake]
      exact exists_raceOn_primed hdecides h hm
  have hracing : Errand s leaves result (turns + 2) todo
      (.racing ((ks.map (Prog.sleep ms)).map .fresh) k) := by
    refine Errand.of_turn rfl (fun m _ hcan ↦ ?_) fun m hm _ ↦ ?_
    · obtain ⟨f, rest, rfl⟩ := List.exists_cons_of_ne_nil hne
      cases hcan
    · rw [Machine.advance_racing, Machine.advanceAll_map_sleep, Machine.raceOn_map_sleeping hne]
      exact ⟨_, .of_spent (.refl hm) (Nat.lt_succ_self _) todo, hasleep _⟩
  refine Errand.of_run fun m hm ↦ ?_
  rw [Machine.run_race hmap]
  exact ⟨_, .of_spent (.refl hm) (Nat.lt_succ_self _) todo, hracing⟩

end Race

end Errands

end Recast
