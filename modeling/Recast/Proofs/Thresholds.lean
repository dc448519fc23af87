import Recast.Log.Line
import Recast.Proofs.Landing
import Recast.Proofs.Notation
import Mathlib.Data.Int.Notation
import Mathlib.Data.List.Induction
import Mathlib.Tactic.Common

/-!
From which level on records are written. A logger whose name goes on after a dot stands under the
logger in front of it, unless two dots follow each other (`Log.Config.mem_ancestors`), and takes
records from the level of the nearest logger above it that has one. A setup leaves one handler, of
the general level, and changes the level of the mapping core only if it is asked to
(`Log.Config.setup_of_isValid`), so that after any number of setups the core has the level that was
last asked for it (`Log.Config.exists_setups`). A record is written if its level reaches that of its
logger and that of the handler (`Log.Config.writesFrom_of_effective`). What the last setup reports
is hence from where on the records of the core are written only if neither the general level nor
that in force is higher (`Log.Config.core_is_written_from_the_higher_level`).
-/

set_option autoImplicit false

namespace Recast.Log

/-- The level has at least the rank. A level without a positive rank reaches none. -/
def Level.Reaches (l : Level) (rank : ℤ) : Prop := 0 < l.rank ∧ rank ≤ l.rank

instance (l : Level) (rank : ℤ) : Decidable (l.Reaches rank) :=
  inferInstanceAs (Decidable (0 < l.rank ∧ rank ≤ l.rank))

/-! ### Loggers under a logger -/

/-- The name is that of the logger, or goes on from it after a dot. -/
def GoesOn (logger name : String) : Prop :=
  name = logger ∨ ∃ more : String, name = logger ++ "." ++ more

/-- A logger of the name stands under the logger, or is that logger. Two dots in a row do not follow
the logger's name: where loggers of such names stand depends on what other loggers there are. -/
def StandsUnder (logger name : String) : Prop :=
  name = logger ∨ ∃ more : String, name = logger ++ "." ++ more ∧
    ¬ ['.', '.'] <:+: '.' :: more.toList

theorem StandsUnder.goesOn {logger name : String} (h : StandsUnder logger name) :
    GoesOn logger name :=
  h.imp_right fun ⟨more, hname, _⟩ ↦ ⟨more, hname⟩

/-- A name begins as that which it goes on from. -/
theorem GoesOn.head?_eq {logger name : String} (hlogger : logger ≠ "") (h : GoesOn logger name) :
    name.toList.head? = logger.toList.head? := by
  rcases h with rfl | ⟨more, rfl⟩
  · rfl
  · cases hchars : logger.toList with
    | nil => exact absurd (String.toList_eq_nil_iff.mp hchars) hlogger
    | cons c rest => simp [hchars]

namespace Config

theorem exists_of_mem_above {name logger : List Char} (h : logger ∈ above name) :
    ∃ more, name = more ++ '.' :: logger := by
  fun_induction above name with
  | case1 => cases h
  | case2 => cases h
  | case3 d rest ih =>
    rcases List.mem_cons.mp h with rfl | hrest
    · exact ⟨[], rfl⟩
    · obtain ⟨more, rfl⟩ := ih hrest
      exact ⟨'.' :: d :: more, rfl⟩
  | case4 c d rest hdot ih =>
    obtain ⟨more, hmore⟩ := ih h
    exact ⟨c :: more, by rw [hmore, List.cons_append]⟩

theorem mem_above {more logger : List Char} (hlogger : logger ≠ [])
    (hdots : ¬ ['.', '.'] <:+: more ++ ['.']) : logger ∈ above (more ++ '.' :: logger) := by
  obtain ⟨last, front, rfl⟩ := List.exists_cons_of_ne_nil hlogger
  fun_induction above more with
  | case1 => simp [above]
  | case2 c =>
    -- a dot right behind the logger's dot would part names in place of it
    have hc : c ≠ '.' := by
      rintro rfl
      exact hdots (List.infix_refl _)
    simp [above, hc]
  | case3 d rest ih =>
    have hrest := ih fun hpair ↦ hdots (hpair.trans (List.suffix_append ['.', d] _).isInfix)
    simp [above, hrest]
  | case4 c d rest hdot ih =>
    have hrest := ih fun hpair ↦ hdots (hpair.trans (List.suffix_append [c] _).isInfix)
    simpa [above, hdot] using hrest

/-- A logger goes on from all loggers above it. -/
theorem goesOn_of_mem {logger name : String} (h : logger ∈ name :: ancestors name) :
    GoesOn logger name := by
  rcases List.mem_cons.mp h with rfl | habove
  · exact .inl rfl
  · obtain ⟨cs, hcs, rfl⟩ := List.mem_map.mp habove
    obtain ⟨more, hmore⟩ := exists_of_mem_above hcs
    refine .inr ⟨String.ofList more.reverse, String.toList_injective ?_⟩
    rw [← List.reverse_reverse name.toList, hmore]
    simp

/-- What stands under a logger has that logger above it. -/
theorem mem_ancestors {logger name : String} (hlogger : logger ≠ "")
    (h : StandsUnder logger name) : logger ∈ name :: ancestors name := by
  rcases h with rfl | ⟨more, rfl, hdots⟩
  · exact List.mem_cons_self
  · refine List.mem_cons_of_mem _ (List.mem_map.mpr ⟨logger.toList.reverse, ?_, by simp⟩)
    have hreverse : ¬ ['.', '.'] <:+: more.toList.reverse ++ ['.'] := by
      simpa using mt List.reverse_infix.mp hdots
    simpa using mem_above (by simpa using hlogger) hreverse

/-! ### The level in force -/

section Effective

variable {c : Config} {name : String} {rank : ℤ}

/-- A logger for which no level is set, nor for any above it, has that of the root. -/
theorem effective_eq_root (h : ∀ logger ∈ name :: ancestors name, c.own? logger = none) :
    c.effective name = c.root := by
  unfold effective
  split_ifs
  · rfl
  · rw [List.findSome?_eq_none_iff.mpr h, Option.getD_none]

/-- A logger has the only level that is set among those above it and its own. -/
theorem effective_eq_of_mem {logger : String} (hname : isRoot name = false)
    (hall : ∀ logger ∈ name :: ancestors name, c.own? logger = none ∨ c.own? logger = some rank)
    (hmem : logger ∈ name :: ancestors name) (hown : c.own? logger = some rank) :
    c.effective name = rank := by
  rw [effective, if_neg (by simp [hname])]
  cases hfirst : (name :: ancestors name).findSome? c.own? with
  | none => exact absurd (List.findSome?_eq_none_iff.mp hfirst logger hmem) (by simp [hown])
  | some found =>
    obtain ⟨first, hmemfirst, hfound⟩ := List.exists_of_findSome?_eq_some hfirst
    rcases hall first hmemfirst with hnone | hsome
    · exact absurd hfound (by simp [hnone])
    · rw [Option.getD_some]
      exact Option.some.inj (hfound.symm.trans hsome)

end Effective

/-! ### Setting logging up -/

/-- The rank of the general level. -/
def Setup.rank (s : Setup) : ℤ := (rankOf? (Text.upper s.level)).getD 0

/-- The rank of the level that is asked for the mapping core. -/
def Setup.coreRank? (s : Setup) : Option ℤ :=
  s.mapperLevel?.bind fun name ↦ rankOf? (Text.upper name)

/-- The names stand for levels. -/
def Setup.IsValid (s : Setup) : Prop :=
  (rankOf? (Text.upper s.level)).isSome ∧
    ∀ name ∈ s.mapperLevel?, (rankOf? (Text.upper name)).isSome

/-- The rank of the level that is reported for the mapping core. -/
def Setup.reportedRank (s : Setup) : ℤ := s.coreRank?.getD s.rank

/-- The rank that is in force for the mapping core after setups: the last that was asked for, or
zero. -/
def coreRank (setups : List Setup) : ℤ := (setups.reverse.findSome? Setup.coreRank?).getD 0

/-- Loggers have levels of their own only if they are that of the mapping core, which has the given
one, or those of the quiet libraries. -/
structure HasLevels (c : Config) (core? : Option ℤ) : Prop where
  core : c.levels.lookup mapperLogger = core?
  others : ∀ logger ∉ mapperLogger :: quiet, c.levels.lookup logger = none

theorem hasLevels_none (root : ℤ) (handlers : List Handler) :
    HasLevels ⟨root, handlers, []⟩ none :=
  ⟨rfl, fun _ _ ↦ rfl⟩

/-- Logging is as the setup leaves it, with the given level of the mapping core. -/
structure IsSetUp (c : Config) (s : Setup) (core? : Option ℤ) : Prop extends HasLevels c core? where
  root : c.root = s.rank
  handlers : c.handlers = [⟨formatOf s.format, s.rank⟩]
  quiet : ∀ library ∈ quiet, c.levels.lookup library = some Level.warning.rank

theorem lookup_foldl_assign_const {α : Type} (names : List String) (v : α)
    (entries : List (String × α)) (name : String) :
    (names.foldl (fun entries name ↦ assign entries name v) entries).lookup name =
      if name ∈ names then some v else entries.lookup name := by
  induction names generalizing entries with
  | nil => rfl
  | cons first rest ih =>
    rw [List.foldl_cons, ih, lookup_assign]
    by_cases hrest : name ∈ rest <;> by_cases hfirst : name = first <;> simp [hrest, hfirst]

/-- What a setup does: one handler and the root get the general level, the mapping core gets a level
if one is asked for, and the libraries are kept quiet. -/
theorem setup_eq (c : Config) {s : Setup} (hs : s.IsValid) :
    c.setup s = .ok
      { root := s.rank
        handlers := [⟨formatOf s.format, s.rank⟩]
        levels := quiet.foldl (fun levels library ↦ assign levels library Level.warning.rank)
          (s.coreRank?.elim c.levels (assign c.levels mapperLogger)) } := by
  obtain ⟨rank, hrank⟩ := Option.isSome_iff_exists.mp hs.1
  cases hlevel : s.mapperLevel? with
  | none => simp [setup, Setup.rank, Setup.coreRank?, hrank, hlevel]
  | some name =>
    obtain ⟨core, hcore⟩ := Option.isSome_iff_exists.mp (hs.2 name hlevel)
    simp [setup, Setup.rank, Setup.coreRank?, hrank, hlevel, hcore]

/-- The levels after a setup, by logger. -/
theorem lookup_levels (levels : List (String × ℤ)) (core? : Option ℤ) (logger : String) :
    (quiet.foldl (fun levels library ↦ assign levels library Level.warning.rank)
      (core?.elim levels (assign levels mapperLogger))).lookup logger =
        if logger ∈ quiet then some Level.warning.rank
        else if logger = mapperLogger then core?.or (levels.lookup logger)
        else levels.lookup logger := by
  rw [lookup_foldl_assign_const]
  cases core? with
  | none => simp
  | some core => simp [lookup_assign]

/-- A setup leaves the level of the mapping core as it was unless it is asked for another. -/
theorem setup_of_isValid {c : Config} {s : Setup} {core? : Option ℤ} (hs : s.IsValid)
    (h : c.HasLevels core?) : ∃ c', c.setup s = .ok c' ∧ c'.IsSetUp s (s.coreRank?.or core?) := by
  refine ⟨_, setup_eq c hs, ⟨?_, ?_⟩, rfl, rfl, ?_⟩
  · rw [lookup_levels, if_neg (by decide), if_pos rfl, h.core]
  · intro logger hlogger
    obtain ⟨hne, hloud⟩ := not_or.mp (mt List.mem_cons.mpr hlogger)
    rw [lookup_levels, if_neg hloud, if_neg hne, h.others logger hlogger]
  · intro library hlibrary
    rw [lookup_levels, if_pos hlibrary]

/-- The level that was last asked for the mapping core is that of the last setup, if it asks for
one. -/
theorem findSome?_coreRank?_concat (earlier : List Setup) (last : Setup) :
    (earlier ++ [last]).reverse.findSome? Setup.coreRank? =
      last.coreRank?.or (earlier.reverse.findSome? Setup.coreRank?) := by
  rw [List.reverse_concat, List.findSome?_cons]
  cases last.coreRank? <;> rfl

theorem setups_concat {c c' : Config} {earlier : List Setup} {last : Setup} {core? : Option ℤ}
    (hearlier : earlier.foldlM setup c = .ok c') (hlevels : c'.HasLevels core?)
    (hlast : last.IsValid) :
    ∃ c'', (earlier ++ [last]).foldlM setup c = .ok c'' ∧
      c''.IsSetUp last (last.coreRank?.or core?) := by
  obtain ⟨c'', hsetup, hset⟩ := setup_of_isValid hlast hlevels
  refine ⟨c'', ?_, hset⟩
  rw [List.foldlM_append, hearlier]
  simp only [bind, Except.bind, List.foldlM_cons, hsetup, List.foldlM_nil]
  rfl

/-- After setups logging is as the last of them leaves it, and the mapping core has the level that
was last asked for it. -/
theorem exists_setups {c : Config} (hc : c.HasLevels none) (earlier : List Setup) (last : Setup)
    (hvalid : ∀ s ∈ earlier ++ [last], s.IsValid) :
    ∃ c', (earlier ++ [last]).foldlM setup c = .ok c' ∧
      c'.IsSetUp last ((earlier ++ [last]).reverse.findSome? Setup.coreRank?) := by
  -- from the last setup back: all that it needs to know of those before it is which levels are set
  induction earlier using List.reverseRecOn generalizing last with
  | nil =>
    rw [findSome?_coreRank?_concat]
    exact setups_concat rfl hc (hvalid last (by simp))
  | append_singleton before s ih =>
    obtain ⟨c', hrun, hset⟩ := ih s fun t ht ↦ hvalid t (List.mem_append_left _ ht)
    rw [findSome?_coreRank?_concat]
    exact setups_concat hrun hset.toHasLevels (hvalid last (by simp))

/-! ### Where levels are in force -/

/-- The logger is outside of the mapping core and of the quiet libraries. -/
def IsOutside (name : String) : Prop := ∀ logger ∈ mapperLogger :: quiet, ¬ GoesOn logger name

/-- No name goes on both from the mapping core and from a quiet library: they begin differently. -/
theorem not_goesOn_of_mem_quiet {library name : String} (hlibrary : library ∈ quiet)
    (h : GoesOn library name) : ¬ GoesOn mapperLogger name := by
  intro hcore
  have hfirst : ∀ library ∈ quiet, library ≠ "" ∧
      library.toList.head? ≠ mapperLogger.toList.head? := by decide
  obtain ⟨hne, hhead⟩ := hfirst library hlibrary
  exact hhead ((h.head?_eq hne).symm.trans (hcore.head?_eq (by decide)))

/-- A name that goes on from a logger which has a level is not that of the root. -/
theorem isRoot_eq_false {logger name : String} (hlogger : logger ∈ mapperLogger :: quiet)
    (h : GoesOn logger name) : isRoot name = false := by
  have hfirst : ∀ logger ∈ mapperLogger :: quiet, logger ≠ "" ∧
      logger.toList.head? ≠ some 'r' ∧ logger.toList.head? ≠ none := by decide
  obtain ⟨hne, hr, hnone⟩ := hfirst logger hlogger
  have hhead := h.head?_eq hne
  by_contra hroot
  rw [Bool.not_eq_false, isRoot, Bool.or_eq_true, beq_iff_eq, String.isEmpty_iff] at hroot
  rcases hroot with rfl | rfl
  · exact hr hhead.symm
  · exact hnone hhead.symm

namespace IsSetUp

variable {c : Config} {s : Setup} {core? : Option ℤ} (h : c.IsSetUp s core?) {name : String}

include h

theorem own?_mapperLogger : c.own? mapperLogger = core?.filter fun rank ↦ rank ≠ 0 := by
  rw [own?, h.core]

theorem own?_of_mem_quiet {library : String} (hlibrary : library ∈ Config.quiet) :
    c.own? library = some Level.warning.rank := by
  rw [own?, h.quiet library hlibrary]
  rfl

theorem own?_of_notMem {logger : String} (hlogger : logger ∉ mapperLogger :: Config.quiet) :
    c.own? logger = none := by
  rw [own?, h.others logger hlogger, Option.filter_none]

/-- Outside of the mapping core and of the quiet libraries the general level is in force. -/
theorem effective_of_isOutside (hname : IsOutside name) : c.effective name = s.rank := by
  rw [effective_eq_root, h.root]
  intro logger hlogger
  exact h.own?_of_notMem fun hmem ↦ hname logger hmem (goesOn_of_mem hlogger)

/-- Under a quiet library its level is in force. -/
theorem effective_of_mem_quiet {library : String} (hlibrary : library ∈ Config.quiet)
    (hname : StandsUnder library name) : c.effective name = Level.warning.rank := by
  have hne : ∀ library ∈ Config.quiet, library ≠ "" := by decide
  have hroot := isRoot_eq_false (List.mem_cons_of_mem _ hlibrary) hname.goesOn
  refine effective_eq_of_mem hroot ?_ (mem_ancestors (hne library hlibrary) hname)
    (h.own?_of_mem_quiet hlibrary)
  intro logger hlogger
  by_cases hquiet : logger ∈ Config.quiet
  · exact .inr (h.own?_of_mem_quiet hquiet)
  · refine .inl (h.own?_of_notMem (List.not_mem_cons_of_ne_of_not_mem ?_ hquiet))
    rintro rfl
    exact not_goesOn_of_mem_quiet hlibrary hname.goesOn (goesOn_of_mem hlogger)

/-- Under the mapping core the level in force is the one that was asked for it, or the general one
if there is none. -/
theorem effective_of_standsUnder (hname : StandsUnder mapperLogger name) :
    c.effective name = (core?.filter fun rank ↦ rank ≠ 0).getD s.rank := by
  have hothers : ∀ logger ∈ name :: ancestors name, logger ≠ mapperLogger →
      c.own? logger = none := by
    intro logger hlogger hne
    refine h.own?_of_notMem (List.not_mem_cons_of_ne_of_not_mem hne fun hquiet ↦ ?_)
    exact not_goesOn_of_mem_quiet hquiet (goesOn_of_mem hlogger) hname.goesOn
  cases hcore : core?.filter fun rank ↦ rank ≠ 0 with
  | none =>
    rw [effective_eq_root, h.root, Option.getD_none]
    intro logger hlogger
    by_cases heq : logger = mapperLogger
    · rw [heq, h.own?_mapperLogger, hcore]
    · exact hothers logger hlogger heq
  | some rank =>
    have hown : c.own? mapperLogger = some rank := h.own?_mapperLogger.trans hcore
    refine effective_eq_of_mem (isRoot_eq_false List.mem_cons_self hname.goesOn) ?_
      (mem_ancestors (by decide) hname) hown
    intro logger hlogger
    by_cases heq : logger = mapperLogger
    · exact .inr (heq ▸ hown)
    · exact .inl (hothers logger hlogger heq)

end IsSetUp

/-! ### Records that are written -/

/-- Of the loggers, a record is written exactly once, in the format, if its level has at least the
rank, and otherwise not at all. A record has a message that its arguments fill, and none of its
further fields has a reserved name. -/
def WritesFrom (c : Config) (format : Format) (rank : ℤ) (loggers : String → Prop) : Prop :=
  ∀ (call : Call) (s : Store) (time message : String), loggers call.entry.logger →
    (∀ name ∈ call.entry.extra.map Prod.fst, name ∉ reserved) →
    message? s call.entry.message call.args = some message →
    c.take s time call = .ok
      (if call.entry.level.Reaches rank then
        Text.split '\n' (({ call.entry with message := message }).line format s time call.request)
      else [])

variable {c : Config} {format : Format} {loggers : String → Prop} {rank rank' : ℤ}

/-- A record is written if its level has the rank of its logger and that of the one handler. -/
theorem writesFrom_of_effective {general : ℤ} (hhandlers : c.handlers = [⟨format, general⟩])
    (heffective : ∀ name, loggers name → c.effective name = rank) :
    c.WritesFrom format (max general rank) loggers := by
  intro call s time message hlogger hextra hmessage
  have hfree : (call.entry.extra.find? fun field ↦ decide (field.1 ∈ reserved)) = none := by
    rw [List.find?_eq_none]
    intro field hfield
    simpa using hextra field.1 (List.mem_map_of_mem hfield)
  have htakes : c.takes call.entry.logger call.entry.level = true ↔
      call.entry.level.Reaches rank := by
    simp [takes, Level.Reaches, heffective _ hlogger]
  have hboth : call.entry.level.Reaches (max general rank) ↔
      call.entry.level.Reaches rank ∧ general ≤ call.entry.level.rank := by
    simp only [Level.Reaches, Int.max_le]
    omega
  by_cases hreaches : call.entry.level.Reaches rank
  · simp [take, emit, htakes.mpr hreaches, hfree, hmessage, hhandlers, hboth, hreaches]
  · simp [take, mt htakes.mp hreaches, hboth, hreaches]

/-- Records are written from one rank on only, apart from ranks that are not positive. -/
theorem WritesFrom.rank_le_iff (h : c.WritesFrom format rank loggers)
    (h' : c.WritesFrom format rank' loggers) {name : String} (hname : loggers name) {n : ℤ}
    (hn : 0 < n) : rank ≤ n ↔ rank' ≤ n := by
  let call : Call := ⟨⟨name, ⟨n⟩, "", []⟩, [], none⟩
  have hmessage : message? Store.empty call.entry.message call.args = some "" := rfl
  have htaken := (h call Store.empty "" "" hname (by simp [call]) hmessage).symm.trans
    (h' call Store.empty "" "" hname (by simp [call]) hmessage)
  have hline := Text.split_ne_nil '\n'
    (({ call.entry with message := "" } : Entry).line format Store.empty "" call.request)
  by_cases hrank : rank ≤ n <;> by_cases hrank' : rank' ≤ n
  · exact iff_of_true hrank hrank'
  · simp_all [Level.Reaches, call]
  · simp_all [Level.Reaches, call]
  · exact iff_of_false hrank hrank'

/-! ### The level of the mapping core -/

/-- Ranks of names are zero or at least ten. -/
theorem rankOf?_cases {name : String} {rank : ℤ} (h : rankOf? name = some rank) :
    rank = 0 ∨ 10 ≤ rank := by
  unfold rankOf? at h
  split at h <;> cases h <;> decide

theorem Setup.rank_cases (s : Setup) : s.rank = 0 ∨ 10 ≤ s.rank := by
  unfold Setup.rank
  cases hrank : rankOf? (Text.upper s.level) with
  | none => exact .inl rfl
  | some rank => exact rankOf?_cases hrank

theorem coreRank_cases (setups : List Setup) : coreRank setups = 0 ∨ 10 ≤ coreRank setups := by
  unfold coreRank
  cases hcore : setups.reverse.findSome? Setup.coreRank? with
  | none => exact .inl rfl
  | some rank =>
    obtain ⟨s, -, hs⟩ := List.exists_of_findSome?_eq_some hcore
    obtain ⟨name, -, hname⟩ := Option.bind_eq_some_iff.mp hs
    exact rankOf?_cases hname

/-- A rank of zero changes nothing: the general level is in force then. -/
theorem max_getD_filter {general : ℤ} (h : 0 ≤ general) (core? : Option ℤ) :
    max general ((core?.filter fun rank ↦ rank ≠ 0).getD general) =
      max general (core?.getD 0) := by
  have hzero : max general 0 = general := Int.max_eq_left h
  cases core? with
  | none => simp [hzero]
  | some rank => by_cases hrank : rank = 0 <;> simp [Option.filter_some, hrank, hzero]

/-- Records of the mapping core are written if they reach the general level and the one that was
asked for the core. -/
theorem IsSetUp.writesFrom_core {s : Setup} {core? : Option ℤ} (h : c.IsSetUp s core?) :
    c.WritesFrom (formatOf s.format) (max s.rank (core?.getD 0)) (StandsUnder mapperLogger) := by
  have hgeneral := s.rank_cases
  have hwrites := writesFrom_of_effective h.handlers
    fun name hname ↦ h.effective_of_standsUnder hname
  rwa [max_getD_filter (by omega)] at hwrites

/-- What a setup reports for the mapping core is its general level, or the one then in force. -/
theorem reportedRank_cases (earlier : List Setup) (last : Setup) :
    last.reportedRank = last.rank ∨ last.reportedRank = coreRank (earlier ++ [last]) := by
  rw [Setup.reportedRank, coreRank, findSome?_coreRank?_concat]
  cases last.coreRank? with
  | none => exact .inl rfl
  | some rank => exact .inr rfl

/-- The record of a setup reports the level that the setup asks for the mapping core, or else the
general one. -/
theorem exists_reported {s : Setup} (hs : s.IsValid) :
    ∃ name, ("mapper_level", .text name) ∈ s.entry.extra ∧
      rankOf? name = some s.reportedRank := by
  refine ⟨Text.upper (s.mapperLevel?.getD s.level), by simp [Setup.entry], ?_⟩
  obtain ⟨rank, hrank⟩ := Option.isSome_iff_exists.mp hs.1
  cases hlevel : s.mapperLevel? with
  | none => simp [Setup.reportedRank, Setup.coreRank?, Setup.rank, hlevel, hrank]
  | some name =>
    obtain ⟨core, hcore⟩ := Option.isSome_iff_exists.mp (hs.2 name hlevel)
    simp [Setup.reportedRank, Setup.coreRank?, hlevel, hcore]

/-- After any setups, whatever handlers the root had before, a record of the mapping core is written
exactly once if its level reaches both the general level of the last setup and the level that was
last asked for the core, by this setup or an earlier one, and otherwise not at all. Records outside
of the core and of the quiet libraries are written from the general level on, those of a quiet
library from the general level on, but no records below warnings. What the last setup reports for
the core is from where on its records are written exactly if neither the general level nor that in
force is higher. -/
theorem core_is_written_from_the_higher_level (root : ℤ) (handlers : List Handler)
    (earlier : List Setup) (last : Setup) (hvalid : ∀ s ∈ earlier ++ [last], s.IsValid) :
    ∃ c, (earlier ++ [last]).foldlM setup ⟨root, handlers, []⟩ = .ok c ∧
      c.WritesFrom (formatOf last.format) (max last.rank (coreRank (earlier ++ [last])))
        (StandsUnder mapperLogger) ∧
      c.WritesFrom (formatOf last.format) last.rank IsOutside ∧
      (∀ library ∈ quiet, c.WritesFrom (formatOf last.format)
        (max last.rank Level.warning.rank) (StandsUnder library)) ∧
      (∃ name, ("mapper_level", .text name) ∈ last.entry.extra ∧
        rankOf? name = some last.reportedRank) ∧
      (c.WritesFrom (formatOf last.format) last.reportedRank (StandsUnder mapperLogger) ↔
        last.rank ≤ last.reportedRank ∧ coreRank (earlier ++ [last]) ≤ last.reportedRank) := by
  obtain ⟨c, hrun, hset⟩ := exists_setups (hasLevels_none root handlers) earlier last hvalid
  have hgeneral := last.rank_cases
  have hforce := coreRank_cases (earlier ++ [last])
  have hreported := reportedRank_cases earlier last
  have hcore : c.WritesFrom (formatOf last.format) (max last.rank (coreRank (earlier ++ [last])))
      (StandsUnder mapperLogger) := hset.writesFrom_core
  refine ⟨c, hrun, hcore, ?_, fun library hlibrary ↦ ?_, exists_reported (hvalid last (by simp)),
    ?_, ?_⟩
  · have hwrites := writesFrom_of_effective hset.handlers
      fun name hname ↦ hset.effective_of_isOutside hname
    rwa [Int.max_self] at hwrites
  · exact writesFrom_of_effective hset.handlers
      fun name hname ↦ hset.effective_of_mem_quiet hlibrary hname
  · intro hwrites
    have hsame := hwrites.rank_le_iff hcore (.inl rfl : StandsUnder mapperLogger mapperLogger)
      (n := max last.reportedRank 1) (by omega)
    omega
  · rintro ⟨hle, hle'⟩
    have hequal : max last.rank (coreRank (earlier ++ [last])) = last.reportedRank := by omega
    exact hequal ▸ hcore

namespace Sample

/-- A setup that asks for more of the mapping core than of the rest. -/
def chatty : Setup := ⟨"INFO", "console", some "debug"⟩

/-- A setup that asks for the errors of the mapping core only. -/
def terse : Setup := ⟨"INFO", "json", some "ERROR"⟩

/-- A setup for everything, which asks for no level of the mapping core. -/
def plain : Setup := ⟨"DEBUG", "console", none⟩

/-- The call that tells of a rule, at a level. -/
def telling (level : Level) : Call :=
  ⟨⟨"structured_mapper.mappers.builder", level, "Rule registered", []⟩, [], none⟩

theorem isValid_samples : chatty.IsValid ∧ terse.IsValid ∧ plain.IsValid := by
  refine ⟨⟨by decide, ?_⟩, ⟨by decide, ?_⟩, ⟨by decide, ?_⟩⟩ <;> rintro name ⟨⟩ <;> decide

/-- After a terse setup a plain one writes the errors of the mapping core only, though it reports
that it writes all of its records. -/
theorem errors_stay_in_force :
    (∀ s ∈ [terse] ++ [plain], s.IsValid) ∧ plain.reportedRank = 10 ∧
      ∃ c, [terse, plain].foldlM setup initial = .ok c ∧
        c.WritesFrom .console 40 (StandsUnder mapperLogger) ∧
        c.WritesFrom .console 10 IsOutside ∧
        ¬ c.WritesFrom .console 10 (StandsUnder mapperLogger) := by
  obtain ⟨-, hterse, hplain⟩ := isValid_samples
  have hvalid : ∀ s ∈ [terse] ++ [plain], s.IsValid := by
    simpa using ⟨hterse, hplain⟩
  have hrank : plain.rank = 10 := by decide
  have hforce : coreRank ([terse] ++ [plain]) = 40 := by decide
  have hreported : plain.reportedRank = 10 := by decide
  obtain ⟨c, hrun, hcore, houtside, -, -, hgoverns⟩ :=
    core_is_written_from_the_higher_level Level.warning.rank [] [terse] plain hvalid
  rw [hrank, hforce] at hcore hgoverns
  rw [hrank] at houtside
  rw [hreported] at hgoverns
  exact ⟨hvalid, hreported, c, hrun, hcore, houtside, mt hgoverns.mp (by decide)⟩

/-- Where records of the mapping core are written from a higher rank on than the reported one, a
record between the two is missing. -/
theorem missing_of_isSetUp {c : Config} {s : Setup} {core? : Option ℤ} (h : c.IsSetUp s core?)
    {level : Level} (hreported : level.Reaches s.reportedRank)
    (hforce : ¬ level.Reaches (max s.rank (core?.getD 0))) :
    c.take Store.empty "" (telling level) = .ok [] ∧
      ¬ c.WritesFrom (formatOf s.format) s.reportedRank (StandsUnder mapperLogger) := by
  have hunder : StandsUnder mapperLogger "structured_mapper.mappers.builder" :=
    .inr ⟨"builder", by decide, by decide +kernel⟩
  have hextra : ∀ name ∈ (telling level).entry.extra.map Prod.fst, name ∉ reserved :=
    List.forall_mem_nil _
  have htaken : c.take Store.empty "" (telling level) = .ok [] :=
    (h.writesFrom_core (telling level) _ _ "Rule registered" hunder hextra rfl).trans
      (congrArg Except.ok (if_neg hforce))
  refine ⟨htaken, fun hwrites ↦ ?_⟩
  have hline := htaken.symm.trans
    ((hwrites (telling level) _ _ "Rule registered" hunder hextra rfl).trans
      (congrArg Except.ok (if_pos hreported)))
  exact Text.split_ne_nil _ _ (Except.ok.inj hline).symm

/-- What a setup reports for the mapping core is not from where on its records are written: a level
below the general one that is asked for has no effect, and a level that was asked for before stays
in force. -/
theorem reported_level_does_not_govern :
    (chatty.IsValid ∧ terse.IsValid ∧ plain.IsValid) ∧
      chatty.reportedRank = 10 ∧ plain.reportedRank = 10 ∧
      (∃ c, [chatty].foldlM setup initial = .ok c ∧
        c.take Store.empty "" (telling .debug) = .ok [] ∧
        ¬ c.WritesFrom .console 10 (StandsUnder mapperLogger)) ∧
      ∃ c, [terse, plain].foldlM setup initial = .ok c ∧
        c.take Store.empty "" (telling .info) = .ok [] ∧
        ¬ c.WritesFrom .console 10 (StandsUnder mapperLogger) := by
  obtain ⟨hchatty, hterse, hplain⟩ := isValid_samples
  have hnone := hasLevels_none Level.warning.rank []
  obtain ⟨c, hrun, hset⟩ := exists_setups hnone [] chatty (by simpa using hchatty)
  obtain ⟨c', hrun', hset'⟩ := exists_setups hnone [terse] plain (by simpa using ⟨hterse, hplain⟩)
  exact ⟨isValid_samples, by decide, by decide,
    ⟨c, hrun, missing_of_isSetUp hset (by decide) (by decide)⟩,
    c', hrun', missing_of_isSetUp hset' (by decide) (by decide)⟩

end Sample

end Config

end Recast.Log
