import Recast.Proofs.FirstUse

/-!
Uses of a cell. The moves of each caller are uses one after another (`LazyCell.KeepsUses`), so that
a use that gives anything but the published content has run the factory itself, and the runs are
counted by the moves that begin and end them (`LazyCell.Ledger`). A use that fails leaves the lock
free and the cell empty, and then no use ends before the factory has run again
(`LazyCell.Orderly.runs_lt_of_finished`). No caller is ever stuck (`LazyCell.Orderly.canEnd`).
`LazyCell.fills_once` puts these together over every schedule.
-/

set_option autoImplicit false

namespace Recast

namespace LazyCell

variable {α ε : Type} {factory : ℕ → FactoryResult α ε} {c d : LazyCell α ε} {i j : ℕ} {a : α}

/-! ### Uses -/

/-- Where a caller stood after each of its moves. -/
def movesOf (i : ℕ) (past : List (Move α ε)) : List (CallerStep α ε) :=
  past.filterMap fun m ↦ if m.1 = i then some m.2 else none

/-- What the runs of the factory gave, in the order of their ends. -/
def ended (past : List (Move α ε)) : List (FactoryResult α ε) :=
  past.filterMap fun m ↦ match m.2 with
    | .holding x => some x
    | _ => none

/-- How many runs of the factory have begun. -/
def begun (past : List (Move α ε)) : ℕ :=
  past.countP fun m ↦ match m.2 with
    | .running => true
    | _ => false

/-- The moves of a use that runs the factory, up to the end. -/
def ownRun (x : FactoryResult α ε) : List (CallerStep α ε) :=
  [.waiting, .checking, .running, .holding x, .leaving (resultOf x), .finished (resultOf x)]

/-- The moves of a use up to where its caller stands. -/
inductive UnderWay : CallerStep α ε → List (CallerStep α ε) → Prop
  | idle : UnderWay .idle []
  | found (a : α) : UnderWay (.finished (.ok (some a))) [.finished (.ok (some a))]
  | waiting : UnderWay .waiting [.waiting]
  | checking : UnderWay .checking [.waiting, .checking]
  | late (a : α) : UnderWay (.leaving (.ok (some a))) [.waiting, .checking, .leaving (.ok (some a))]
  | running : UnderWay .running [.waiting, .checking, .running]
  | holding (x : FactoryResult α ε) :
    UnderWay (.holding x) [.waiting, .checking, .running, .holding x]
  | made (x : FactoryResult α ε) : UnderWay (.leaving (resultOf x))
    [.waiting, .checking, .running, .holding x, .leaving (resultOf x)]
  | left {r : GetResult α ε} {latest : List (CallerStep α ε)} (h : UnderWay (.leaving r) latest) :
    UnderWay (.finished r) (latest ++ [.finished r])

theorem movesOf_concat_self (past : List (Move α ε)) (s : CallerStep α ε) :
    movesOf i (past ++ [(i, s)]) = movesOf i past ++ [s] := by
  simp [movesOf]

theorem movesOf_concat_of_ne (h : j ≠ i) (past : List (Move α ε)) (s : CallerStep α ε) :
    movesOf j (past ++ [(i, s)]) = movesOf j past := by
  simp [movesOf, Ne.symm h]

theorem mem_of_mem_movesOf {past : List (Move α ε)} {s : CallerStep α ε}
    (h : s ∈ movesOf i past) : (i, s) ∈ past := by
  obtain ⟨⟨j, s'⟩, hmem, hs⟩ := List.mem_filterMap.mp h
  split_ifs at hs with hj
  cases hs
  exact hj ▸ hmem

/-- The moves of a caller are uses one after another, the last of them up to where it stands. -/
def KeepsUses (past : List (Move α ε)) (c : LazyCell α ε) : Prop :=
  ∀ i, ∃ earlier latest, movesOf i past = earlier ++ latest ∧ UnderWay (c.caller i) latest

theorem KeepsUses.concat {past : List (Move α ε)} {s : CallerStep α ε} (h : KeepsUses past c)
    (hi : i < c.callers.length) (hturn : Turn factory i c s d) :
    KeepsUses (past ++ [(i, s)]) d := by
  intro j
  obtain ⟨earlier, latest, hmoves, hlatest⟩ := h j
  by_cases hj : j = i
  · subst hj
    rw [movesOf_concat_self, hmoves, hturn.caller_self hi]
    have hgoes : ∀ more, UnderWay s more → more = latest ++ [s] →
        ∃ earlier' latest',
          earlier ++ latest ++ [s] = earlier' ++ latest' ∧ UnderWay s latest' := by
      rintro _ hmore rfl
      exact ⟨earlier, latest ++ [s], List.append_assoc _ _ _, hmore⟩
    cases hturn with
    | @found b hs hc => exact ⟨earlier ++ latest, _, rfl, .found b⟩
    | missed hs hc => exact ⟨earlier ++ latest, _, rfl, .waiting⟩
    | entered hs hl =>
      rw [hs] at hlatest
      cases hlatest
      exact hgoes _ .checking rfl
    | @late b hs hc =>
      rw [hs] at hlatest
      cases hlatest
      exact hgoes _ (.late b) rfl
    | began hs hc =>
      rw [hs] at hlatest
      cases hlatest
      exact hgoes _ .running rfl
    | ran hs =>
      rw [hs] at hlatest
      cases hlatest
      exact hgoes _ (.holding _) rfl
    | @published r hs =>
      rw [hs] at hlatest
      cases hlatest
      exact hgoes _ (.made r) rfl
    | left hs =>
      rw [hs] at hlatest
      exact hgoes _ (.left hlatest) rfl
  · rw [movesOf_concat_of_ne hj, hturn.caller_of_ne hj]
    exact ⟨earlier, latest, hmoves, hlatest⟩

/-- What the moves from the empty cell on say about the cell that they lead to. -/
structure Ledger (factory : ℕ → FactoryResult α ε) (past : List (Move α ε)) (c : LazyCell α ε) :
    Prop where
  orderly : c.Orderly factory
  uses : KeepsUses past c
  ended : ended past = (List.range c.runs).map factory
  begun : begun past = c.runs ∧ (∀ i, c.caller i ≠ .running) ∨
    begun past = c.runs + 1 ∧ ∃ i, c.caller i = .running
  /-- A use that gave content gave what is published; any other ran the factory itself. -/
  given : ∀ i r, (i, .finished r) ∈ past →
    (∃ a, r = .ok (some a) ∧ c.content = some a) ∨
      ∃ x, (∀ a, x ≠ .content a) ∧ r = resultOf x ∧ (i, .holding x) ∈ past

namespace Ledger

variable {past : List (Move α ε)} {s : CallerStep α ε}

theorem ended_concat (h : Ledger factory past c) (hturn : Turn factory i c s d) :
    LazyCell.ended (past ++ [(i, s)]) = (List.range d.runs).map factory := by
  rw [LazyCell.ended, List.filterMap_append]
  change LazyCell.ended past ++ _ = _
  rw [h.ended]
  cases hturn with
  | ran => simp [List.range_succ]
  | _ => simp [move]

theorem begun_concat (h : Ledger factory past c) (hi : i < c.callers.length)
    (hturn : Turn factory i c s d) :
    LazyCell.begun (past ++ [(i, s)]) = d.runs ∧ (∀ j, d.caller j ≠ .running) ∨
      LazyCell.begun (past ++ [(i, s)]) = d.runs + 1 ∧ ∃ j, d.caller j = .running := by
  have hself := hturn.caller_self hi
  have hother := fun j (hj : j ≠ i) ↦ hturn.caller_of_ne hj
  -- With the lock, the one who steps is the only one who can be running.
  have halone : (c.caller i).IsInside → ∀ j, j ≠ i → c.caller j ≠ .running := by
    intro hin j hj hrun
    exact hj (h.orderly.alone (by rw [hrun]; trivial) hin)
  have hcount : LazyCell.begun (past ++ [(i, s)]) = LazyCell.begun past + LazyCell.begun [(i, s)] :=
    List.countP_append
  have hquiet : c.caller i ≠ .running → s ≠ .running → LazyCell.begun [(i, s)] = 0 →
      d.runs = c.runs → LazyCell.begun (past ++ [(i, s)]) = d.runs ∧ (∀ j, d.caller j ≠ .running) ∨
        LazyCell.begun (past ++ [(i, s)]) = d.runs + 1 ∧ ∃ j, d.caller j = .running := by
    intro hbefore hafter hzero hruns
    rw [hcount, hzero, hruns]
    refine h.begun.imp (And.imp_right fun hnone j ↦ ?_) (And.imp_right fun ⟨j, hj⟩ ↦ ⟨j, ?_⟩)
    · by_cases hj : j = i
      · rw [hj, hself]
        exact hafter
      · rw [hother j hj]
        exact hnone j
    · rw [hother j, hj]
      rintro rfl
      exact hbefore hj
  cases hturn with
  | found hs | missed hs =>
    refine hquiet (fun hr ↦ ?_) (by simp) rfl rfl
    rw [hr] at hs
    exact hs
  | began hs hc =>
    rcases h.begun with ⟨hruns, -⟩ | ⟨-, j, hj⟩
    · exact Or.inr ⟨hcount.trans (congrArg (· + 1) hruns), i, hself⟩
    · refine absurd hj (halone (by rw [hs]; trivial) j ?_)
      rintro rfl
      simp [hs] at hj
  | ran hs =>
    rcases h.begun with ⟨-, hnone⟩ | ⟨hruns, -⟩
    · exact absurd hs (hnone i)
    · refine Or.inl ⟨hcount.trans hruns, fun j ↦ ?_⟩
      by_cases hj : j = i
      · rw [hj, hself]
        simp
      · rw [hother j hj]
        exact halone (by rw [hs]; trivial) j hj
  | entered hs | late hs | published hs | left hs => exact hquiet (by simp [hs]) (by simp) rfl rfl

theorem given_concat (h : Ledger factory past c) (hturn : Turn factory i c s d) (j : ℕ)
    (r : GetResult α ε) (hr : (j, .finished r) ∈ past ++ [(i, s)]) :
    (∃ a, r = .ok (some a) ∧ d.content = some a) ∨
      ∃ x, (∀ a, x ≠ .content a) ∧ r = resultOf x ∧ (j, .holding x) ∈ past ++ [(i, s)] := by
  rcases List.mem_append.mp hr with hold | hnew
  · refine (h.given j r hold).imp ?_ ?_
    · rintro ⟨a, hr, hc⟩
      exact ⟨a, hr, h.orderly.content_of_turn hturn hc⟩
    · rintro ⟨x, hx, hr, hmem⟩
      exact ⟨x, hx, hr, List.mem_append_left _ hmem⟩
  · obtain ⟨rfl, rfl⟩ := Prod.mk.inj (List.mem_singleton.mp hnew)
    cases hturn with
    | @found a hs hc => exact Or.inl ⟨a, rfl, hc⟩
    | left hs =>
      obtain ⟨earlier, latest, hmoves, hlatest⟩ := h.uses j
      have hagrees := h.orderly.agrees j
      rw [hs] at hlatest hagrees
      cases hlatest with
      | late a => exact Or.inl ⟨a, rfl, (hagrees a).mp rfl⟩
      | made x =>
        by_cases hx : ∃ a, x = .content a
        · obtain ⟨a, rfl⟩ := hx
          exact Or.inl ⟨a, rfl, (hagrees a).mp rfl⟩
        · refine Or.inr ⟨x, not_exists.mp hx, rfl, List.mem_append_left _ (mem_of_mem_movesOf ?_)⟩
          rw [hmoves]
          simp

theorem concat (h : Ledger factory past c) (hi : i < c.callers.length)
    (hturn : Turn factory i c s d) : Ledger factory (past ++ [(i, s)]) d :=
  ⟨h.orderly.of_turn hi hturn, h.uses.concat hi hturn, h.ended_concat hturn,
    h.begun_concat hi hturn, h.given_concat hturn⟩

theorem empty (factory : ℕ → FactoryResult α ε) (n : ℕ) :
    Ledger factory [] (LazyCell.empty n) where
  orderly := .empty n
  uses i := ⟨[], [], rfl, by rw [caller_empty]; exact .idle⟩
  ended := rfl
  begun := Or.inl ⟨rfl, fun i ↦ by rw [caller_empty]; simp⟩
  given i r h := absurd h List.not_mem_nil

/-- Along every schedule the moves give an account of the cell. -/
theorem run (h : Ledger factory past c) (later : List ℕ) :
    Ledger factory (past ++ moves factory c later) (LazyCell.run factory c later) :=
  along (fun _ _ _ _ _ hc hi hturn ↦ hc.concat hi hturn) past h later

end Ledger

/-! ### Ends of uses -/

section Ends

variable {r : GetResult α ε} {x : FactoryResult α ε} {later : List ℕ}

theorem step_of_turn {s : CallerStep α ε} (hi : i < c.callers.length)
    (hturn : Turn factory i c s d) : step factory c i = some d :=
  step_eq_some_iff.mpr ⟨hi, s, hturn⟩

/-- A caller that is about to let the lock go ends its use at its next turn. -/
theorem finished_mem_of_leaving (hi : i < c.callers.length) (hc : c.caller i = .leaving r)
    (h : i ∈ later) : (i, .finished r) ∈ moves factory c later := by
  induction later generalizing c with
  | nil => exact absurd h List.not_mem_nil
  | cons j rest ih =>
    by_cases hj : j = i
    · subst hj
      have hturn : Turn factory j c _ _ := .left hc
      rw [moves_cons_of_step (step_of_turn hi hturn), hturn.caller_self hi]
      exact List.mem_cons_self
    · have hrest : i ∈ rest := (List.mem_cons.mp h).resolve_left (Ne.symm hj)
      cases hstep : step factory c j with
      | none =>
        rw [moves_cons_of_none hstep]
        exact ih hi hc hrest
      | some d =>
        obtain ⟨-, s, hturn⟩ := step_eq_some_iff.mp hstep
        rw [moves_cons_of_step hstep]
        refine List.mem_cons_of_mem _ (ih ?_ ?_ hrest)
        · rw [hturn.length_callers]
          exact hi
        · rw [hturn.caller_of_ne (Ne.symm hj), hc]

/-- What a run of the factory gave reaches the caller that ran it by its second next turn. -/
theorem finished_mem_of_holding (hi : i < c.callers.length) (hc : c.caller i = .holding x)
    (h : 2 ≤ later.count i) : (i, .finished (resultOf x)) ∈ moves factory c later := by
  induction later generalizing c with
  | nil => simp at h
  | cons j rest ih =>
    by_cases hj : j = i
    · subst hj
      have hturn : Turn factory j c _ _ := .published hc
      rw [moves_cons_of_step (step_of_turn hi hturn)]
      rw [List.count_cons_self] at h
      refine List.mem_cons_of_mem _ (finished_mem_of_leaving ?_ (hturn.caller_self hi) ?_)
      · rw [hturn.length_callers]
        exact hi
      · exact List.count_pos_iff.mp (by omega)
    · rw [List.count_cons_of_ne hj] at h
      cases hstep : step factory c j with
      | none =>
        rw [moves_cons_of_none hstep]
        exact ih hi hc h
      | some d =>
        obtain ⟨-, s, hturn⟩ := step_eq_some_iff.mp hstep
        rw [moves_cons_of_step hstep]
        refine List.mem_cons_of_mem _ (ih ?_ ?_ h)
        · rw [hturn.length_callers]
          exact hi
        · rw [hturn.caller_of_ne (Ne.symm hj), hc]

/-- A use that ends with a failure leaves the lock free and the cell empty. -/
theorem Orderly.free_of_error {e : ε} (h : c.Orderly factory)
    (hturn : Turn factory i c (.finished (.error e)) d) : d.lock = none ∧ d.content = none := by
  cases hturn with
  | left hs =>
    have hagrees := h.agrees i
    rw [hs] at hagrees
    refine ⟨rfl, Option.eq_none_iff_forall_ne_some.mpr fun a ha ↦ ?_⟩
    exact absurd ((hagrees a).mpr ha) (by simp)

/-- The cell is empty, no use has ended, and none has a result yet. -/
structure IsBarren (past : List (Move α ε)) (c : LazyCell α ε) : Prop where
  content : c.content = none
  standing : ∀ j, ¬ (c.caller j).HasResult
  unended : ∀ j r, (j, .finished r) ∉ past

theorem IsBarren.concat {past : List (Move α ε)} {s : CallerStep α ε} (h : IsBarren past c)
    (hi : i < c.callers.length) (hturn : Turn factory i c s d) (hruns : d.runs = c.runs) :
    IsBarren (past ++ [(i, s)]) d := by
  have hstay : d.content = c.content → ¬ s.HasResult → (∀ r, s ≠ .finished r) →
      IsBarren (past ++ [(i, s)]) d := by
    intro hcontent hs hend
    refine ⟨hcontent.trans h.content, fun j ↦ ?_, fun j r hmem ↦ ?_⟩
    · by_cases hj : j = i
      · rw [hj, hturn.caller_self hi]
        exact hs
      · rw [hturn.caller_of_ne hj]
        exact h.standing j
    · rcases List.mem_append.mp hmem with hold | hnew
      · exact h.unended j r hold
      · exact hend r (Prod.mk.inj (List.mem_singleton.mp hnew)).2.symm
  have hnone := h.content
  have hstanding := h.standing i
  cases hturn with
  | found hs hc | late hs hc => simp [hc] at hnone
  | missed | entered | began => exact hstay rfl id (by simp)
  | ran => exact absurd hruns (Nat.succ_ne_self c.runs)
  | published hs | left hs =>
    rw [hs] at hstanding
    exact absurd trivial hstanding

theorem Turn.runs_le {s : CallerStep α ε} (h : Turn factory i c s d) : c.runs ≤ d.runs := by
  cases h with
  | ran => exact Nat.le_succ c.runs
  | _ => exact Nat.le_refl c.runs

/-- From an empty cell with the lock free no use ends before the factory has run again. -/
theorem Orderly.runs_lt_of_finished (h : c.Orderly factory) (hlock : c.lock = none)
    (hc : c.content = none) (hmem : (i, .finished r) ∈ moves factory c later) :
    c.runs < (LazyCell.run factory c later).runs := by
  have hbarren : IsBarren [] c := by
    refine ⟨hc, fun j hj ↦ ?_, fun j r ↦ List.not_mem_nil⟩
    have hinside : (c.caller j).IsInside := by
      cases hs : c.caller j <;> simp_all [CallerStep.HasResult, CallerStep.IsInside]
    exact absurd ((h.inside j).mp hinside).symm (by simp [hlock])
  have hrun : c.runs < (LazyCell.run factory c later).runs ∨
      (LazyCell.run factory c later).runs = c.runs ∧
        IsBarren ([] ++ moves factory c later) (LazyCell.run factory c later) := by
    refine along (P := fun past d ↦ c.runs < d.runs ∨ d.runs = c.runs ∧ IsBarren past d) ?_ []
      (Or.inr ⟨rfl, hbarren⟩) later
    rintro past d i s e (hlt | ⟨hsame, hd⟩) hi hturn
    · exact Or.inl (Nat.lt_of_lt_of_le hlt hturn.runs_le)
    · rcases Nat.lt_or_eq_of_le hturn.runs_le with hlt | heq
      · exact Or.inl (hsame ▸ hlt)
      · exact Or.inr ⟨heq ▸ hsame, hd.concat hi hturn heq.symm⟩
  exact hrun.resolve_right fun hquiet ↦ hquiet.2.unended i r hmem

/-! ### Progress -/

theorem moves_append (first later : List ℕ) :
    moves factory c (first ++ later) =
      moves factory c first ++ moves factory (run factory c first) later := by
  induction first generalizing c with
  | nil => rfl
  | cons i rest ih =>
    rw [List.cons_append]
    cases hi : step factory c i with
    | none => rw [moves_cons_of_none hi, moves_cons_of_none hi, run_cons_of_none hi, ih]
    | some d =>
      rw [moves_cons_of_step hi, moves_cons_of_step hi, run_cons_of_step hi, ih, List.cons_append]

/-- Steps of a caller alone let the lock go with a result. -/
def CanLeave (factory : ℕ → FactoryResult α ε) (i : ℕ) (c : LazyCell α ε) : Prop :=
  ∃ n r, (i, .finished r) ∈ moves factory c (List.replicate n i) ∧
    (run factory c (List.replicate n i)).lock = none

theorem CanLeave.of_turn {s : CallerStep α ε} (hi : i < c.callers.length)
    (hturn : Turn factory i c s d) (h : CanLeave factory i d) : CanLeave factory i c := by
  obtain ⟨n, r, hmem, hlock⟩ := h
  have hstep := step_of_turn hi hturn
  refine ⟨n + 1, r, ?_, ?_⟩
  · rw [List.replicate_succ, moves_cons_of_step hstep]
    exact List.mem_cons_of_mem _ hmem
  · rw [List.replicate_succ, run_cons_of_step hstep]
    exact hlock

theorem canLeave_of_leaving (hi : i < c.callers.length) (hs : c.caller i = .leaving r) :
    CanLeave factory i c := by
  refine ⟨1, r, finished_mem_of_leaving hi hs List.mem_cons_self, ?_⟩
  have hstep : step factory c i = some _ := step_of_turn hi (.left hs)
  rw [List.replicate_one, run_cons_of_step hstep]
  rfl

theorem canLeave_of_holding (hi : i < c.callers.length) (hs : c.caller i = .holding x) :
    CanLeave factory i c := by
  have hturn : Turn factory i c _ _ := .published hs
  refine .of_turn hi hturn (canLeave_of_leaving ?_ (hturn.caller_self hi))
  rw [hturn.length_callers]
  exact hi

theorem canLeave_of_running (hi : i < c.callers.length) (hs : c.caller i = .running) :
    CanLeave factory i c := by
  have hturn : Turn factory i c _ _ := .ran hs
  refine .of_turn hi hturn (canLeave_of_holding ?_ (hturn.caller_self hi))
  rw [hturn.length_callers]
  exact hi

theorem canLeave_of_checking (hi : i < c.callers.length) (hs : c.caller i = .checking) :
    CanLeave factory i c := by
  cases hc : c.content with
  | some a =>
    have hturn : Turn factory i c _ _ := .late hs hc
    refine .of_turn hi hturn (canLeave_of_leaving ?_ (hturn.caller_self hi))
    rw [hturn.length_callers]
    exact hi
  | none =>
    have hturn : Turn factory i c _ _ := .began hs hc
    refine .of_turn hi hturn (canLeave_of_running ?_ (hturn.caller_self hi))
    rw [hturn.length_callers]
    exact hi

/-- Whoever has the lock can let it go. -/
theorem canLeave_of_isInside (hi : i < c.callers.length) (h : (c.caller i).IsInside) :
    CanLeave factory i c := by
  cases hs : c.caller i with
  | checking => exact canLeave_of_checking hi hs
  | running => exact canLeave_of_running hi hs
  | holding x => exact canLeave_of_holding hi hs
  | leaving r => exact canLeave_of_leaving hi hs
  | idle | waiting | finished =>
    rw [hs] at h
    exact h.elim

theorem caller_run_replicate_of_ne (h : j ≠ i) (n : ℕ) :
    (run factory c (List.replicate n i)).caller j = c.caller j := by
  induction n generalizing c with
  | zero => rfl
  | succ n ih =>
    rw [List.replicate_succ]
    cases hi : step factory c i with
    | none => rw [run_cons_of_none hi, ih]
    | some d =>
      obtain ⟨-, s, hturn⟩ := step_eq_some_iff.mp hi
      rw [run_cons_of_step hi, ih, hturn.caller_of_ne h]

theorem length_callers_run (c : LazyCell α ε) (later : List ℕ) :
    (run factory c later).callers.length = c.callers.length :=
  along (P := fun _ d ↦ d.callers.length = c.callers.length)
    (fun _ _ _ _ _ hd _ hturn ↦ hturn.length_callers.trans hd) [] rfl later

/-- Some way for the callers to go on ends a use of this one. -/
def CanEnd (factory : ℕ → FactoryResult α ε) (i : ℕ) (c : LazyCell α ε) : Prop :=
  ∃ later r, (i, .finished r) ∈ moves factory c later

theorem CanEnd.of_run (first : List ℕ) (h : CanEnd factory i (run factory c first)) :
    CanEnd factory i c := by
  obtain ⟨later, r, hmem⟩ := h
  refine ⟨first ++ later, r, ?_⟩
  rw [moves_append]
  exact List.mem_append_right _ hmem

theorem CanEnd.of_turn {s : CallerStep α ε} (hi : i < c.callers.length)
    (hturn : Turn factory i c s d) (h : CanEnd factory i d) : CanEnd factory i c := by
  refine .of_run [i] ?_
  rw [run_cons_of_step (step_of_turn hi hturn)]
  exact h

theorem CanLeave.canEnd (h : CanLeave factory i c) : CanEnd factory i c :=
  let ⟨n, r, hmem, _⟩ := h
  ⟨List.replicate n i, r, hmem⟩

theorem lt_length_of_isInside (h : (c.caller i).IsInside) : i < c.callers.length := by
  by_contra hi
  have hidle : c.caller i = .idle := by
    rw [caller, List.getElem?_eq_none (Nat.le_of_not_lt hi), Option.getD_none]
  rw [hidle] at h
  exact h

theorem canEnd_of_waiting_free (hi : i < c.callers.length) (hs : c.caller i = .waiting)
    (hlock : c.lock = none) : CanEnd factory i c := by
  have hturn : Turn factory i c _ _ := .entered hs hlock
  refine .of_turn hi hturn (canLeave_of_checking ?_ (hturn.caller_self hi)).canEnd
  rw [hturn.length_callers]
  exact hi

/-- A caller that waits for the lock gets it once the one that has it has let it go. -/
theorem Orderly.canEnd_of_waiting (h : c.Orderly factory) (hi : i < c.callers.length)
    (hs : c.caller i = .waiting) : CanEnd factory i c := by
  cases hlock : c.lock with
  | none => exact canEnd_of_waiting_free hi hs hlock
  | some j =>
    have hj : (c.caller j).IsInside := (h.inside j).mpr hlock
    have hleave : CanLeave factory j c := canLeave_of_isInside (lt_length_of_isInside hj) hj
    obtain ⟨n, -, -, hfree⟩ := hleave
    refine .of_run (List.replicate n j) (canEnd_of_waiting_free ?_ ?_ hfree)
    · rw [length_callers_run]
      exact hi
    · rw [caller_run_replicate_of_ne, hs]
      rintro rfl
      rw [hs] at hj
      exact hj

/-- No caller is ever stuck: wherever it stands, it can end a use. -/
theorem Orderly.canEnd (h : c.Orderly factory) (hi : i < c.callers.length) :
    CanEnd factory i c := by
  have hresting : (c.caller i).IsResting → CanEnd factory i c := by
    intro hs
    cases hc : c.content with
    | some a =>
      have hturn : Turn factory i c _ _ := .found hs hc
      refine ⟨[i], .ok (some a), ?_⟩
      rw [moves_cons_of_step (step_of_turn hi hturn), hturn.caller_self hi]
      exact List.mem_cons_self
    | none =>
      have hturn : Turn factory i c _ _ := .missed hs hc
      refine .of_turn hi hturn ((h.of_turn hi hturn).canEnd_of_waiting ?_ (hturn.caller_self hi))
      rw [hturn.length_callers]
      exact hi
  cases hs : c.caller i with
  | idle | finished => exact hresting (by rw [hs]; trivial)
  | waiting => exact h.canEnd_of_waiting hi hs
  | checking | running | holding | leaving =>
    exact (canLeave_of_isInside hi (by rw [hs]; trivial)).canEnd

/-- From an empty cell with the lock free, a caller that comes first runs the factory. -/
theorem running_of_first (hi : i < c.callers.length) (hs : (c.caller i).IsResting)
    (hlock : c.lock = none) (hc : c.content = none) :
    (run factory c [i, i, i]).caller i = .running := by
  have hmissed : Turn factory i c .waiting (c.move i .waiting) := .missed hs hc
  have hwaiting := hmissed.caller_self hi
  generalize hd : c.move i .waiting = d at hmissed hwaiting
  have hd' : i < d.callers.length := hmissed.length_callers ▸ hi
  have hentered : Turn factory i d .checking _ := .entered hwaiting (by rw [← hd]; exact hlock)
  have hchecking := hentered.caller_self hd'
  generalize he : ({ d.move i .checking with lock := some i } : LazyCell α ε) = e
    at hentered hchecking
  have he' : i < e.callers.length := hentered.length_callers ▸ hd'
  have hbegan : Turn factory i e .running _ := .began hchecking (by rw [← he, ← hd]; exact hc)
  rw [run_cons_of_step (step_of_turn hi hmissed), run_cons_of_step (step_of_turn hd' hentered),
    run_cons_of_step (step_of_turn he' hbegan)]
  exact hbegan.caller_self he'

end Ends

/-! ### All of a schedule -/

/-- The last use of a caller ran the factory itself without getting content, and gave what the run
gave. -/
def RanInVain (past : List (Move α ε)) (i : ℕ) (x : FactoryResult α ε) (r : GetResult α ε) : Prop :=
  (∃ earlier, movesOf i past = earlier ++ ownRun x) ∧ r = resultOf x ∧ ∀ a, x ≠ .content a

namespace Ledger

variable {past : List (Move α ε)} {r : GetResult α ε}

theorem ranInVain_of_finished (h : Ledger factory past c) (hr : c.caller i = .finished r) :
    (∃ a, r = .ok (some a) ∧ c.content = some a) ∨ ∃ x, RanInVain past i x r := by
  have hagrees := h.orderly.agrees i
  obtain ⟨earlier, latest, hmoves, hlatest⟩ := h.uses i
  rw [hr] at hagrees hlatest
  cases hlatest with
  | found a => exact Or.inl ⟨a, rfl, hagrees a rfl⟩
  | left hlatest =>
    cases hlatest with
    | late a => exact Or.inl ⟨a, rfl, hagrees a rfl⟩
    | made x =>
      by_cases hx : ∃ a, x = .content a
      · obtain ⟨a, rfl⟩ := hx
        exact Or.inl ⟨a, rfl, hagrees a rfl⟩
      · exact Or.inr ⟨x, ⟨earlier, hmoves⟩, rfl, not_exists.mp hx⟩

theorem holding_mem_of_ranInVain {x : FactoryResult α ε} (h : RanInVain past i x r) :
    (i, .holding x) ∈ past := by
  obtain ⟨⟨earlier, hmoves⟩, -, -⟩ := h
  apply mem_of_mem_movesOf
  rw [hmoves]
  simp [ownRun]

/-- What a use gives from a publication on: the content, or what a run of its own gave that ended
before. -/
theorem finished_of_content (h : Ledger factory past c) (hc : c.content = some a)
    (later : List ℕ) (hr : (LazyCell.run factory c later).caller i = .finished r) :
    r = .ok (some a) ∨
      ∃ x, RanInVain (past ++ moves factory c later) i x r ∧ (i, .holding x) ∈ past := by
  rcases (h.run later).ranInVain_of_finished hr with ⟨b, hb, hcontent⟩ | ⟨x, hx⟩
  · left
    rw [hb, ← hcontent, h.orderly.content_of_run hc]
  · refine Or.inr ⟨x, hx, ?_⟩
    rcases List.mem_append.mp (holding_mem_of_ranInVain hx) with hold | hnew
    · exact hold
    · exact absurd trivial (h.orderly.moves_of_isSettled (Or.inl hc) later _ hnew)

/-- Where every run gives content there is only one, and every use gives its content. -/
theorem one_run (h : Ledger factory past c) (hall : ∀ k, ∃ a, factory k = .content a) :
    LazyCell.begun past ≤ 1 ∧ ∀ i r, (i, .finished r) ∈ past →
      LazyCell.begun past = 1 ∧ ∃ a, factory 0 = .content a ∧ r = .ok (some a) := by
  obtain ⟨a, ha⟩ := hall 0
  have hran : 0 < c.runs → LazyCell.begun past = 1 := by
    intro hpos
    obtain ⟨hruns, hset⟩ := h.orderly.early 0 a hpos ha
    rcases h.begun with ⟨hbegun, -⟩ | ⟨-, j, hj⟩
    · omega
    · -- Someone running would have found the cell empty, with the lock in the hands of another.
      have hempty := h.orderly.agrees j
      rw [hj] at hempty
      rcases hset with hc | ⟨k, hk⟩
      · exact absurd (hc.symm.trans hempty) (Option.some_ne_none a)
      · have heq : j = k := h.orderly.alone (by rw [hj]; trivial) (by rw [hk]; trivial)
        rw [heq, hk] at hj
        simp at hj
  refine ⟨?_, fun i r hr ↦ ?_⟩
  · by_cases hpos : 0 < c.runs
    · exact Nat.le_of_eq (hran hpos)
    · rcases h.begun with ⟨hbegun, -⟩ | ⟨hbegun, -⟩ <;> omega
  · rcases h.given i r hr with ⟨b, hb, hc⟩ | ⟨x, hx, -, hmem⟩
    · obtain ⟨k, hk, hfac⟩ := h.orderly.content b hc
      have hpos : 0 < c.runs := Nat.zero_lt_of_lt hk
      have hfirst := (h.orderly.early 0 a hpos ha).1
      obtain rfl : k = 0 := by omega
      exact ⟨hran hpos, b, hfac, hb⟩
    · -- What gave no content was a run of the factory all the same.
      have hended : x ∈ LazyCell.ended past := List.mem_filterMap.mpr ⟨_, hmem, rfl⟩
      rw [h.ended] at hended
      obtain ⟨k, -, hk⟩ := List.mem_map.mp hended
      obtain ⟨b, hb⟩ := hall k
      exact absurd (hk.symm.trans hb) (hx b)

end Ledger

/-- A cell is filled once, whatever the number of its callers, the order of their steps and what the
factory gives on each of its runs.

At most one run of the factory is in progress, and after one that gave content none begins and none
ends. Content that is published stays. A use that ends gives the published content, or has itself
run the factory, without getting content, and gives what this run gave; such a run that the use of
an already filled cell tells had ended before the cell was filled. If every run gives content there
is one run, and every use gives what it gave. What a failing run gives reaches the caller that ran
it and no other; then the lock is free and the cell empty, no use ends before the factory has run
again, and the next to come runs it. And no caller is ever stuck. -/
theorem fills_once (factory : ℕ → FactoryResult α ε) (n : ℕ) (schedule : List ℕ) :
    let c := run factory (empty n) schedule
    let past := moves factory (empty n) schedule
    (∀ i j, c.caller i = .running → c.caller j = .running → i = j) ∧
      ended past = (List.range c.runs).map factory ∧
      (∀ k a, k < c.runs → factory k = .content a →
        ∀ later, ∀ m ∈ moves factory c later, ¬ m.2.IsRun) ∧
      (∀ a, c.content = some a → ∀ later,
        (run factory c later).content = some a ∧ (run factory c later).isCompiled = true) ∧
      (∀ i r, c.caller i = .finished r →
        (∃ a, r = .ok (some a) ∧ c.content = some a) ∨ ∃ x, RanInVain past i x r) ∧
      (∀ a, c.content = some a → ∀ later i r, (run factory c later).caller i = .finished r →
        r = .ok (some a) ∨
          ∃ x, RanInVain (past ++ moves factory c later) i x r ∧ (i, .holding x) ∈ past) ∧
      ((∀ k, ∃ a, factory k = .content a) → begun past ≤ 1 ∧ ∀ i r, (i, .finished r) ∈ past →
        begun past = 1 ∧ ∃ a, factory 0 = .content a ∧ r = .ok (some a)) ∧
      (∀ i e, c.caller i = .holding (.failure e) → c.isCompiled = false ∧
        ∀ later, 2 ≤ later.count i → (i, .finished (.error e)) ∈ moves factory c later) ∧
      (∀ i e d, step factory c i = some d → d.caller i = .finished (.error e) →
        d.lock = none ∧ d.isCompiled = false ∧
          (∀ later j r, (j, .finished r) ∈ moves factory d later →
            d.runs < (run factory d later).runs) ∧
          ∀ j < n, (d.caller j).IsResting → (run factory d [j, j, j]).caller j = .running) ∧
      ∀ i < n, ∃ later r, (i, .finished r) ∈ moves factory c later := by
  intro c past
  have hledger : Ledger factory past c := (Ledger.empty factory n).run schedule
  have horderly := hledger.orderly
  have hlength : c.callers.length = n := by
    rw [length_callers_run, empty, List.length_replicate]
  have hmember : ∀ {i}, (c.caller i).IsInside → i < c.callers.length := lt_length_of_isInside
  refine ⟨fun i j hi hj ↦ ?_, hledger.ended, fun k a hk ha ↦ ?_, fun a hc later ↦ ?_,
    fun i r ↦ hledger.ranInVain_of_finished,
    fun a hc later i r ↦ hledger.finished_of_content hc later,
    hledger.one_run, fun i e hi ↦ ⟨?_, fun later ↦ ?_⟩, fun i e d hstep hd ↦ ?_, fun i hi ↦ ?_⟩
  · exact horderly.alone (by rw [hi]; trivial) (by rw [hj]; trivial)
  · exact horderly.moves_of_isSettled (horderly.early k a hk ha).2
  · have hcontent := horderly.content_of_run hc later
    exact ⟨hcontent, by rw [isCompiled, hcontent, Option.isSome_some]⟩
  · have hagrees := horderly.agrees i
    rw [hi] at hagrees
    rw [isCompiled, hagrees.1, Option.isSome_none]
  · exact finished_mem_of_holding (hmember (by rw [hi]; trivial)) hi
  · obtain ⟨hi, s, hturn⟩ := step_eq_some_iff.mp hstep
    obtain rfl : s = .finished (.error e) := (hturn.caller_self hi).symm.trans hd
    obtain ⟨hlock, hcontent⟩ := horderly.free_of_error hturn
    refine ⟨hlock, by rw [isCompiled, hcontent, Option.isSome_none], fun later j r hmem ↦ ?_,
      fun j hj hrest ↦ ?_⟩
    · exact (horderly.of_turn hi hturn).runs_lt_of_finished hlock hcontent hmem
    · refine running_of_first ?_ hrest hlock hcontent
      rw [hturn.length_callers, hlength]
      exact hj
  · exact horderly.canEnd (by rw [hlength]; exact hi)

end LazyCell

end Recast
