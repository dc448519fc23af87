import Recast.LazyCell
import Mathlib.Data.List.Basic

/-!
Cells that are filled at first use, whatever the order in which their callers step.
`LazyCell.Turn` lists the steps, and `LazyCell.Orderly` is what they keep: the caller with the lock
is the only one between taking it and letting it go, the content is what the last run of the factory
gave, and no run before the last gave content. `LazyCell.along` carries what every step keeps over
every schedule. What is published stays (`LazyCell.Orderly.content_of_run`), and once a run has
given content none begins any more (`LazyCell.Orderly.moves_of_isSettled`).
-/

set_option autoImplicit false

namespace Recast

namespace CallerStep

variable {α ε : Type}

/-- Not in a use. -/
def IsResting : CallerStep α ε → Prop
  | .idle | .finished _ => True
  | _ => False

/-- Between taking the lock and letting it go. -/
def IsInside : CallerStep α ε → Prop
  | .checking | .running | .holding _ | .leaving _ => True
  | _ => False

/-- Has the result of the use, but has not ended it. -/
def HasResult : CallerStep α ε → Prop
  | .holding _ | .leaving _ => True
  | _ => False

/-- A run of the factory begins here, or ends here. -/
def IsRun : CallerStep α ε → Prop
  | .running | .holding _ => True
  | _ => False

end CallerStep

namespace LazyCell

variable {α ε : Type} {factory : ℕ → FactoryResult α ε} {c d : LazyCell α ε} {i j : ℕ} {a : α}

/-! ### Single steps -/

@[simp] theorem length_callers_move (s : CallerStep α ε) :
    (c.move i s).callers.length = c.callers.length :=
  List.length_set

theorem caller_move_self (h : i < c.callers.length) (s : CallerStep α ε) :
    (c.move i s).caller i = s := by
  simp [caller, move, h]

theorem caller_move_of_ne (h : j ≠ i) (s : CallerStep α ε) :
    (c.move i s).caller j = c.caller j := by
  simp [caller, move, List.getElem?_set_ne (Ne.symm h)]

theorem caller_empty (n i : ℕ) : (empty n : LazyCell α ε).caller i = .idle := by
  simp only [caller, empty, List.getElem?_replicate]
  split <;> rfl

/-- The steps that a caller can take, with where it stands after. -/
inductive Turn (factory : ℕ → FactoryResult α ε) (i : ℕ) (c : LazyCell α ε) :
    CallerStep α ε → LazyCell α ε → Prop
  /-- Without the lock, the cell has content. -/
  | found {a : α} (hs : (c.caller i).IsResting) (hc : c.content = some a) :
    Turn factory i c (.finished (.ok (some a))) (c.move i (.finished (.ok (some a))))
  /-- Without the lock, the cell is empty. -/
  | missed (hs : (c.caller i).IsResting) (hc : c.content = none) :
    Turn factory i c .waiting (c.move i .waiting)
  | entered (hs : c.caller i = .waiting) (hl : c.lock = none) :
    Turn factory i c .checking { c.move i .checking with lock := some i }
  /-- With the lock, the cell has content. -/
  | late {a : α} (hs : c.caller i = .checking) (hc : c.content = some a) :
    Turn factory i c (.leaving (.ok (some a))) (c.move i (.leaving (.ok (some a))))
  | began (hs : c.caller i = .checking) (hc : c.content = none) :
    Turn factory i c .running (c.move i .running)
  | ran (hs : c.caller i = .running) :
    Turn factory i c (.holding (factory c.runs))
      { c.move i (.holding (factory c.runs)) with runs := c.runs + 1 }
  | published {r : FactoryResult α ε} (hs : c.caller i = .holding r) :
    Turn factory i c (.leaving (resultOf r))
      { c.move i (.leaving (resultOf r)) with content := publish c.content r }
  | left {r : GetResult α ε} (hs : c.caller i = .leaving r) :
    Turn factory i c (.finished r) { c.move i (.finished r) with lock := none }

/-- A step is one of the listed ones, taken by one of the callers. -/
theorem step_eq_some_iff :
    step factory c i = some d ↔ i < c.callers.length ∧ ∃ s, Turn factory i c s d := by
  unfold step
  constructor
  · intro h
    split_ifs at h with hi
    refine ⟨hi, ?_⟩
    split at h <;> rename_i hs <;> (try split at h) <;> cases h
    · exact ⟨_, .found (by rw [hs]; trivial) ‹_›⟩
    · exact ⟨_, .missed (by rw [hs]; trivial) ‹_›⟩
    · exact ⟨_, .found (by rw [hs]; trivial) ‹_›⟩
    · exact ⟨_, .missed (by rw [hs]; trivial) ‹_›⟩
    · exact ⟨_, .entered hs ‹_›⟩
    · exact ⟨_, .late hs ‹_›⟩
    · exact ⟨_, .began hs ‹_›⟩
    · exact ⟨_, .ran hs⟩
    · exact ⟨_, .published hs⟩
    · exact ⟨_, .left hs⟩
  · rintro ⟨hi, s, hturn⟩
    rw [if_pos hi]
    cases hturn with
    | found hs hc => cases hcaller : c.caller i <;> simp_all [CallerStep.IsResting]
    | missed hs hc => cases hcaller : c.caller i <;> simp_all [CallerStep.IsResting]
    | entered hs hl => simp [hs, hl]
    | late hs hc => simp [hs, hc]
    | began hs hc => simp [hs, hc]
    | ran hs => simp [hs]
    | published hs => simp [hs]
    | left hs => simp [hs]

section Turn

variable {s : CallerStep α ε}

theorem Turn.caller_self (h : Turn factory i c s d) (hi : i < c.callers.length) :
    d.caller i = s := by
  cases h <;> exact caller_move_self hi _

theorem Turn.caller_of_ne (h : Turn factory i c s d) (hj : j ≠ i) : d.caller j = c.caller j := by
  cases h <;> exact caller_move_of_ne hj _

theorem Turn.length_callers (h : Turn factory i c s d) : d.callers.length = c.callers.length := by
  cases h <;> exact length_callers_move _

/-- A caller without the lock leaves the content and the count of the runs alone. -/
theorem Turn.same_of_not_isInside (h : Turn factory i c s d) (hi : ¬ (c.caller i).IsInside) :
    d.content = c.content ∧ d.runs = c.runs := by
  cases h with
  | found | missed | entered => exact ⟨rfl, rfl⟩
  | late hs | began hs | ran hs | published hs | left hs =>
    rw [hs] at hi
    exact absurd trivial hi

end Turn

theorem not_isInside_of_isResting {s : CallerStep α ε} (h : s.IsResting) : ¬ s.IsInside := by
  cases s <;> simp_all [CallerStep.IsResting, CallerStep.IsInside]

/-! ### What the steps keep -/

/-- A run has given this content: it is published, or some caller is about to publish it. -/
def IsSettled (c : LazyCell α ε) (a : α) : Prop :=
  c.content = some a ∨ ∃ i, c.caller i = .holding (.content a)

/-- What the standing of a caller says about the cell. -/
def Agrees (factory : ℕ → FactoryResult α ε) (c : LazyCell α ε) : CallerStep α ε → Prop
  | .idle | .waiting | .checking => True
  | .running => c.content = none
  | .holding r => c.content = none ∧ ∃ k, c.runs = k + 1 ∧ factory k = r
  | .leaving r => ∀ a, r = .ok (some a) ↔ c.content = some a
  | .finished r => ∀ a, r = .ok (some a) → c.content = some a

theorem Agrees.of_same {s : CallerStep α ε} (hcontent : d.content = c.content)
    (hruns : d.runs = c.runs) (h : c.Agrees factory s) : d.Agrees factory s := by
  cases s <;> simp_all [Agrees]

/-- A cell as its callers leave it between their steps. -/
structure Orderly (factory : ℕ → FactoryResult α ε) (c : LazyCell α ε) : Prop where
  inside : ∀ i, (c.caller i).IsInside ↔ c.lock = some i
  agrees : ∀ i, c.Agrees factory (c.caller i)
  content : ∀ a, c.content = some a → ∃ k < c.runs, factory k = .content a
  early : ∀ k a, k < c.runs → factory k = .content a → c.runs = k + 1 ∧ c.IsSettled a

namespace Orderly

theorem empty (n : ℕ) : Orderly factory (LazyCell.empty n) := by
  refine ⟨fun i ↦ ?_, fun i ↦ ?_, fun a h ↦ ?_, fun k a h ↦ ?_⟩
  · rw [caller_empty]
    exact ⟨False.elim, fun h ↦ absurd h.symm (Option.some_ne_none i)⟩
  · rw [caller_empty]
    trivial
  · exact absurd h.symm (Option.some_ne_none a)
  · exact absurd h (Nat.not_lt_zero k)

/-- Only one caller is between taking the lock and letting it go. -/
theorem alone (h : c.Orderly factory) (hi : (c.caller i).IsInside) (hj : (c.caller j).IsInside) :
    i = j :=
  Option.some.inj (((h.inside i).mp hi).symm.trans ((h.inside j).mp hj))

theorem content_of_turn {s : CallerStep α ε} (h : c.Orderly factory) (hturn : Turn factory i c s d)
    (hc : c.content = some a) : d.content = some a := by
  cases hturn with
  | published hs =>
    have hnone := (hs ▸ h.agrees i : c.Agrees factory (.holding _)).1
    rw [hc] at hnone
    exact absurd hnone (Option.some_ne_none a)
  | _ => exact hc

/-- Once a run has given content, no step begins a run or ends one. -/
theorem isSettled_of_turn {s : CallerStep α ε} (h : c.Orderly factory) (hi : i < c.callers.length)
    (hturn : Turn factory i c s d) (hset : c.IsSettled a) : d.IsSettled a ∧ ¬ s.IsRun := by
  have hkeep : c.content = none → (c.caller i).IsInside → c.caller i = .holding (.content a) := by
    intro hnone hinside
    rcases hset with hcontent | ⟨j, hj⟩
    · rw [hcontent] at hnone
      exact absurd hnone (Option.some_ne_none a)
    · rw [h.alone hinside (by rw [hj]; trivial)]
      exact hj
  have hother : (∀ r, c.caller i ≠ .holding r) → d.content = c.content → d.IsSettled a := by
    intro hne hsame
    refine hset.imp (hsame ▸ id) ?_
    rintro ⟨j, hj⟩
    refine ⟨j, ?_⟩
    rw [hturn.caller_of_ne, hj]
    rintro rfl
    exact hne _ hj
  have hrest : (c.caller i).IsResting → ∀ r, c.caller i ≠ .holding r := by
    intro hs r hr
    exact not_isInside_of_isResting hs (by rw [hr]; trivial)
  cases hturn with
  | found hs hc => exact ⟨hother (hrest hs) rfl, id⟩
  | missed hs hc => exact ⟨hother (hrest hs) rfl, id⟩
  | entered hs hl => exact ⟨hother (by simp [hs]) rfl, id⟩
  | late hs hc => exact ⟨hother (by simp [hs]) rfl, id⟩
  | began hs hc =>
    have hhold := hkeep hc (by rw [hs]; trivial)
    simp [hs] at hhold
  | ran hs =>
    have hnone : c.content = none := (hs ▸ h.agrees i : c.Agrees factory .running)
    have hhold := hkeep hnone (by rw [hs]; trivial)
    simp [hs] at hhold
  | @published r hs =>
    have hnone : c.content = none := (hs ▸ h.agrees i : c.Agrees factory (.holding r)).1
    have hhold := hkeep hnone (by rw [hs]; trivial)
    obtain rfl : r = .content a := CallerStep.holding.inj (hs.symm.trans hhold)
    exact ⟨Or.inl rfl, id⟩
  | left hs => exact ⟨hother (by simp [hs]) rfl, id⟩

theorem inside_of_turn {s : CallerStep α ε} (h : c.Orderly factory) (hi : i < c.callers.length)
    (hturn : Turn factory i c s d) (j : ℕ) : (d.caller j).IsInside ↔ d.lock = some j := by
  by_cases hj : j = i
  · subst hj
    rw [hturn.caller_self hi]
    have hinside := h.inside j
    cases hturn with
    | found hs | missed hs =>
      exact ⟨False.elim, fun hl ↦ absurd (hinside.mpr hl) (not_isInside_of_isResting hs)⟩
    | entered => exact ⟨fun _ ↦ rfl, fun _ ↦ trivial⟩
    | late hs | began hs | ran hs | published hs =>
      exact ⟨fun _ ↦ hinside.mp (by rw [hs]; trivial), fun _ ↦ trivial⟩
    | left => exact ⟨False.elim, fun hl ↦ absurd hl.symm (Option.some_ne_none j)⟩
  · rw [hturn.caller_of_ne hj, h.inside j]
    have hne : ¬ (some i = some j) := fun hij ↦ hj (Option.some.inj hij).symm
    cases hturn with
    | entered hs hl =>
      rw [hl]
      exact ⟨fun hl ↦ absurd hl.symm (Option.some_ne_none j), fun hl ↦ absurd hl hne⟩
    | left hs =>
      rw [(h.inside i).mp (by rw [hs]; trivial)]
      exact ⟨fun hl ↦ absurd hl hne, fun hl ↦ absurd hl.symm (Option.some_ne_none j)⟩
    | _ => exact Iff.rfl

theorem agrees_of_turn {s : CallerStep α ε} (h : c.Orderly factory) (hi : i < c.callers.length)
    (hturn : Turn factory i c s d) (j : ℕ) : d.Agrees factory (d.caller j) := by
  by_cases hj : j = i
  · subst hj
    rw [hturn.caller_self hi]
    have hagrees := h.agrees j
    cases hturn with
    | found hs hc =>
      rintro b ⟨⟩
      exact hc
    | missed | entered => trivial
    | late hs hc =>
      intro b
      change _ ↔ c.content = some b
      simp [hc]
    | began hs hc => exact hc
    | ran hs =>
      rw [hs] at hagrees
      exact ⟨hagrees, c.runs, rfl, rfl⟩
    | @published r hs =>
      rw [hs] at hagrees
      intro b
      change _ ↔ publish c.content r = some b
      cases r <;> simp [resultOf, publish, hagrees.1]
    | left hs =>
      rw [hs] at hagrees
      exact fun b ↦ (hagrees b).mp
  · rw [hturn.caller_of_ne hj]
    have hagrees := h.agrees j
    by_cases hin : (c.caller j).IsInside
    · -- The one who steps is outside then, and changes nothing that is spoken of.
      have hout : ¬ (c.caller i).IsInside := fun hin' ↦ hj (h.alone hin hin')
      obtain ⟨hcontent, hruns⟩ := hturn.same_of_not_isInside hout
      exact hagrees.of_same hcontent hruns
    · cases hs : c.caller j with
      | idle | waiting => trivial
      | finished r =>
        rw [hs] at hagrees
        exact fun b hb ↦ h.content_of_turn hturn (hagrees b hb)
      | _ => exact absurd (hs ▸ trivial) hin

/-- A step keeps the cell in order. -/
theorem of_turn {s : CallerStep α ε} (h : c.Orderly factory) (hi : i < c.callers.length)
    (hturn : Turn factory i c s d) : d.Orderly factory := by
  refine ⟨h.inside_of_turn hi hturn, h.agrees_of_turn hi hturn, fun a ha ↦ ?_, fun k a hk hfac ↦ ?_⟩
  · cases hturn with
    | ran hs =>
      obtain ⟨k, hk, hfac⟩ := h.content a ha
      exact ⟨k, Nat.lt_succ_of_lt hk, hfac⟩
    | @published r hs =>
      obtain ⟨hnone, k, hk, hfac⟩ := (hs ▸ h.agrees i : c.Agrees factory (.holding r))
      have hr : r = .content a := by
        change publish c.content r = some a at ha
        cases r <;> simp_all [publish]
      exact ⟨k, by change k < c.runs; omega, hfac.trans hr⟩
    | _ => exact h.content a ha
  · have hself := hturn.caller_self hi
    have hsettled := fun hset ↦ h.isSettled_of_turn (a := a) hi hturn hset
    cases hturn with
    | ran hs =>
      rcases Nat.lt_succ_iff_lt_or_eq.mp hk with hlt | rfl
      · exact absurd trivial (hsettled (h.early k a hlt hfac).2).2
      · exact ⟨rfl, Or.inr ⟨i, by rw [hself, hfac]⟩⟩
    | _ =>
      obtain ⟨hruns, hset⟩ := h.early k a hk hfac
      exact ⟨hruns, (hsettled hset).1⟩

end Orderly

/-! ### Schedules -/

/-- A move: a caller, and where it stands after its step. -/
abbrev Move (α ε : Type) := ℕ × CallerStep α ε

/-- The moves of the callers along a schedule. -/
def moves (factory : ℕ → FactoryResult α ε) (c : LazyCell α ε) : List ℕ → List (Move α ε)
  | [] => []
  | i :: rest =>
    match step factory c i with
    | some d => (i, d.caller i) :: moves factory d rest
    | none => moves factory c rest

theorem run_cons_of_step (h : step factory c i = some d) (rest : List ℕ) :
    run factory c (i :: rest) = run factory d rest := by
  rw [run, h, Option.getD_some]

theorem moves_cons_of_step (h : step factory c i = some d) (rest : List ℕ) :
    moves factory c (i :: rest) = (i, d.caller i) :: moves factory d rest := by
  rw [moves, h]

theorem run_cons_of_none (h : step factory c i = none) (rest : List ℕ) :
    run factory c (i :: rest) = run factory c rest := by
  rw [run, h, Option.getD_none]

theorem moves_cons_of_none (h : step factory c i = none) (rest : List ℕ) :
    moves factory c (i :: rest) = moves factory c rest := by
  rw [moves, h]

/-- What each step keeps, of the moves so far and the cell, holds along every schedule. -/
theorem along {P : List (Move α ε) → LazyCell α ε → Prop}
    (hstep : ∀ past c i s d, P past c → i < c.callers.length → Turn factory i c s d →
      P (past ++ [(i, s)]) d) (past : List (Move α ε)) (h : P past c) (later : List ℕ) :
    P (past ++ moves factory c later) (run factory c later) := by
  induction later generalizing past c with
  | nil => simpa [moves, run] using h
  | cons i rest ih =>
    cases hi : step factory c i with
    | none =>
      rw [moves_cons_of_none hi, run_cons_of_none hi]
      exact ih past h
    | some d =>
      obtain ⟨hlt, s, hturn⟩ := step_eq_some_iff.mp hi
      rw [moves_cons_of_step hi, run_cons_of_step hi, hturn.caller_self hlt,
        List.append_cons past]
      exact ih (past ++ [(i, s)]) (hstep past c i s d h hlt hturn)

theorem Orderly.run (h : c.Orderly factory) (later : List ℕ) :
    (run factory c later).Orderly factory :=
  along (P := fun _ d ↦ d.Orderly factory)
    (fun _ _ _ _ _ hc hi hturn ↦ hc.of_turn hi hturn) [] h later

/-- What is published stays. -/
theorem Orderly.content_of_run (h : c.Orderly factory) (hc : c.content = some a)
    (later : List ℕ) : (LazyCell.run factory c later).content = some a := by
  refine (along (P := fun _ d ↦ d.Orderly factory ∧ d.content = some a) ?_ [] ⟨h, hc⟩ later).2
  rintro - e i s d ⟨he, hcontent⟩ hi hturn
  exact ⟨he.of_turn hi hturn, he.content_of_turn hturn hcontent⟩

/-- After a run that gave content, no run begins and none ends. -/
theorem Orderly.moves_of_isSettled (h : c.Orderly factory) (hset : c.IsSettled a)
    (later : List ℕ) : ∀ m ∈ moves factory c later, ¬ m.2.IsRun := by
  refine (along (P := fun past d ↦ d.Orderly factory ∧ d.IsSettled a ∧ ∀ m ∈ past, ¬ m.2.IsRun)
    ?_ [] ⟨h, hset, by simp⟩ later).2.2
  rintro past e i s d ⟨he, hset, hpast⟩ hi hturn
  obtain ⟨hsettled, hrun⟩ := he.isSettled_of_turn hi hturn hset
  refine ⟨he.of_turn hi hturn, hsettled, fun m hm ↦ ?_⟩
  rcases List.mem_append.mp hm with hold | hnew
  · exact hpast m hold
  · rw [List.mem_singleton.mp hnew]
    exact hrun

end LazyCell

end Recast
