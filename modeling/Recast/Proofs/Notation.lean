import Recast.Errors
import Recast.Proofs.Path

/-!
The notation of slots. A text writes a path with or without the word `target` in front; without it
the path has a first segment, and this is not that word (`Slot.IsWrittenAs`). Reading drops the
blanks around a text and accepts exactly what writes a path of attribute names
(`Slot.parse_text_eq_ok_iff`). No text writes two paths (`Slot.IsWrittenAs.unique`), and the key of
a slot, which holds no blanks, is read as that slot (`Slot.parse_key`).
-/

set_option autoImplicit false

namespace Recast

namespace Text

/-! ### Blanks -/

/-- The code points of the blanks. -/
def blanks : List ℕ :=
  [9, 10, 11, 12, 13, 28, 29, 30, 31, 32, 0x85, 0xa0, 0x1680, 0x2000, 0x2001, 0x2002, 0x2003,
    0x2004, 0x2005, 0x2006, 0x2007, 0x2008, 0x2009, 0x200a, 0x2028, 0x2029, 0x202f, 0x205f, 0x3000]

theorem toNat_mem_blanks {c : Char} (h : isBlank c = true) : c.toNat ∈ blanks := by
  simp only [isBlank, Bool.or_eq_true, Bool.and_eq_true, decide_eq_true_eq, beq_iff_eq] at h
  simp only [blanks, List.mem_cons, List.not_mem_nil, or_false]
  omega

/-- No blank stands in a name. -/
theorem isBlank_eq_false_of_isNamePart {c : Char} (h : isNamePart c = true) :
    isBlank c = false := by
  have hnone : ∀ n ∈ blanks, isNamePart (Char.ofNat n) = false := by decide +kernel
  by_contra hblank
  have hpart := hnone c.toNat (toNat_mem_blanks (Bool.not_eq_false _ ▸ hblank))
  rw [Char.ofNat_toNat, h] at hpart
  exact Bool.noConfusion hpart

/-- There is nothing to trim where there are no blanks. -/
theorem trim_of_not_blank {s : String} (h : ∀ c ∈ s.toList, isBlank c = false) : trim s = s := by
  have hfront : ∀ cs : List Char, (∀ c ∈ cs, isBlank c = false) → trimFront cs = cs := by
    intro cs hcs
    cases cs with
    | nil => simp [trimFront]
    | cons c rest => simp [trimFront, hcs c List.mem_cons_self]
  have hback : ∀ c ∈ s.toList.reverse, isBlank c = false := by simpa using h
  rw [trim, trimChars, hfront _ h, hfront _ hback, List.reverse_reverse, String.ofList_toList]

/-! ### Pieces -/

theorem split_ne_nil (mark : Char) (s : String) : split mark s ≠ [] := by
  have hpieces : ∀ cs, splitAt mark cs ≠ [] := by
    intro cs
    induction cs with
    | nil => simp [splitAt]
    | cons c rest ih =>
      rw [splitAt]
      split_ifs
      · simp
      · cases splitAt mark rest <;> simp
  simpa [split] using hpieces s.toList

end Text

namespace Slot

theorem toList_dotted_cons (s : String) {rest : List String} (h : rest ≠ []) :
    (dotted (s :: rest)).toList = s.toList ++ '.' :: (dotted rest).toList := by
  cases rest with
  | nil => exact absurd rfl h
  | cons t more => simp [dotted]

/-- The pieces of a text, joined again, are the text. -/
theorem dotted_split (s : String) : dotted (Text.split '.' s) = s := by
  have hpieces : ∀ cs : List Char,
      (dotted ((Text.splitAt '.' cs).map String.ofList)).toList = cs := by
    intro cs
    induction cs with
    | nil => simp [Text.splitAt, dotted]
    | cons c rest ih =>
      cases hrest : Text.splitAt '.' rest with
      | nil => exact absurd (by simp [Text.split, hrest]) (Text.split_ne_nil '.' (.ofList rest))
      | cons piece pieces =>
        rw [hrest] at ih
        rw [Text.splitAt, hrest]
        split_ifs with hdot
        · rw [List.map_cons, toList_dotted_cons _ (by simp), ih, hdot]
          simp
        · cases pieces with
          | nil => simpa [dotted] using ih
          | cons next more =>
            rw [List.map_cons, toList_dotted_cons _ (by simp)] at ih ⊢
            simp only [String.toList_ofList] at ih ⊢
            rw [List.cons_append, ih]
  exact String.toList_injective (hpieces s.toList)

/-! ### What a text writes -/

/-- A text writes the path of a slot: after the word for the target, or by itself, if it has a first
segment and this is not that word. -/
def IsWrittenAs (p : Slot) (text : String) : Prop :=
  text = dotted (root :: p.path) ∨
    p.path ≠ [] ∧ p.path.head? ≠ some root ∧ text = dotted p.path

section Written

variable {p q : Slot} {text d : String}

/-- The steps that are read from a text are those of the path that it writes. -/
theorem stepsOf_of_isWrittenAs (hp : p.IsValid) (h : p.IsWrittenAs (Text.trim d)) :
    stepsOf d = p.path := by
  rw [stepsOf]
  rcases h with hrooted | ⟨hne, hfirst, hplain⟩
  · rw [hrooted, split_dotted (List.cons_ne_nil _ _) (dot_notMem_of_isValid hp)]
    simp
  · have hdot : ∀ s ∈ p.path, '.' ∉ s.toList := fun s hs ↦ Text.dot_notMem_of_isSegment (hp s hs)
    rw [hplain, split_dotted hne hdot]
    cases hpath : p.path with
    | nil => exact absurd hpath hne
    | cons first rest =>
      rw [hpath] at hfirst
      simpa using hfirst

/-- A text writes the steps that are read from it. -/
theorem isWrittenAs_stepsOf (d : String) : IsWrittenAs ⟨stepsOf d⟩ (Text.trim d) := by
  have hjoined := dotted_split (Text.trim d)
  rw [IsWrittenAs, stepsOf]
  cases hpieces : Text.split '.' (Text.trim d) with
  | nil => exact absurd hpieces (Text.split_ne_nil '.' _)
  | cons first rest =>
    rw [hpieces] at hjoined
    by_cases hroot : first = root
    · simp [hroot, ← hjoined]
    · simp [hroot, ← hjoined]

/-- Reading accepts exactly the texts that write a path of attribute names. -/
theorem parse_text_eq_ok_iff :
    parse (.text d) = .ok p ↔ p.IsValid ∧ p.IsWrittenAs (Text.trim d) := by
  constructor
  · intro h
    refine ⟨isValid_of_parse (d := .text d) trivial h, ?_⟩
    simp only [parse] at h
    split_ifs at h
    rw [← Except.ok.inj h]
    exact isWrittenAs_stepsOf d
  · rintro ⟨hp, hwritten⟩
    have hall : p.path.all Text.isSegment = true := List.all_eq_true.mpr hp
    simp [parse, stepsOf_of_isWrittenAs hp hwritten, hall]

/-- A text that writes no such path is refused, and the error holds the text. -/
theorem parse_text_eq_error (h : ∀ p : Slot, p.IsValid → ¬ p.IsWrittenAs (Text.trim d)) :
    parse (.text d) = .error (.notPath d) := by
  cases hparse : parse (.text d) with
  | ok p =>
    obtain ⟨hp, hwritten⟩ := parse_text_eq_ok_iff.mp hparse
    exact absurd hwritten (h p hp)
  | error e =>
    simp only [parse] at hparse
    split_ifs at hparse
    exact hparse.symm

/-! ### Keys -/

/-- Segments joined by dots hold no blanks. -/
theorem isBlank_eq_false_of_mem_dotted {segments : List String}
    (h : ∀ s ∈ segments, Text.isSegment s = true) {c : Char} (hc : c ∈ (dotted segments).toList) :
    Text.isBlank c = false := by
  induction segments with
  | nil => simp [dotted] at hc
  | cons s rest ih =>
    obtain ⟨hs, hrest⟩ := List.forall_mem_cons.mp h
    have hname : ∀ c ∈ s.toList, Text.isBlank c = false := by
      intro c hc
      have hchars : Text.isNameChars s.toList = true := (Bool.and_eq_true _ _ ▸ hs).1
      exact Text.isBlank_eq_false_of_isNamePart (Text.isNamePart_of_mem hchars hc)
    by_cases hempty : rest = []
    · subst hempty
      exact hname c hc
    · rw [toList_dotted_cons s hempty, List.mem_append, List.mem_cons] at hc
      rcases hc with hc | rfl | hc
      · exact hname c hc
      · decide
      · exact ih hrest hc

/-- A text that writes a path of attribute names has no blanks around it. -/
theorem trim_of_isWrittenAs (hp : p.IsValid) (h : p.IsWrittenAs text) : Text.trim text = text := by
  rcases h with hrooted | ⟨_, _, hplain⟩
  · have hall : ∀ s ∈ root :: p.path, Text.isSegment s = true :=
      List.forall_mem_cons.mpr ⟨by decide, hp⟩
    rw [hrooted]
    exact Text.trim_of_not_blank fun c hc ↦ isBlank_eq_false_of_mem_dotted hall hc
  · rw [hplain]
    exact Text.trim_of_not_blank fun c hc ↦ isBlank_eq_false_of_mem_dotted hp hc

/-- Every valid slot is read from its key. -/
theorem parse_key (hp : p.IsValid) : parse (.text p.key) = .ok p := by
  have hkey : p.IsWrittenAs p.key := Or.inl rfl
  rw [parse_text_eq_ok_iff, trim_of_isWrittenAs hp hkey]
  exact ⟨hp, hkey⟩

/-- No text writes two paths of attribute names. -/
theorem IsWrittenAs.unique (hp : p.IsValid) (hq : q.IsValid) (hp' : p.IsWrittenAs text)
    (hq' : q.IsWrittenAs text) : p = q := by
  have htrim := trim_of_isWrittenAs hp hp'
  rw [← htrim] at hp' hq'
  have hread := parse_text_eq_ok_iff.mpr ⟨hp, hp'⟩
  rw [parse_text_eq_ok_iff.mpr ⟨hq, hq'⟩] at hread
  exact (Except.ok.inj hread).symm

end Written

/-! ### Shapes -/

/-- What a descriptor names has the shape of one kind, and is given for that kind alone. -/
theorem exists_kind_of_parse {d : Descriptor} {p : Slot} (h : parse d = .ok p) :
    ∃ kind, ∀ k q, parseAs k d = .ok q ↔ k = kind ∧ q = p := by
  refine ⟨if p.path = [] then .whole else .field, fun k q ↦ ?_⟩
  rw [parseAs_eq_ok_iff, h, Except.ok.injEq]
  constructor
  · rintro ⟨rfl, hkind⟩
    cases k <;> simp_all
  · rintro ⟨rfl, rfl⟩
    split_ifs <;> simp_all

/-- What names no slot at all names none of either kind. -/
theorem parseAs_of_parse_eq_error {d : Descriptor} {e : ShapeError} (h : parse d = .error e)
    (kind : Kind) : parseAs kind d = .error e := by
  simp [parseAs, h]

end Slot

/-- The fault is one of a wrong shape, and tells the descriptor. -/
def Fault.TellsShape (f : Fault) (descriptor : String) : Prop :=
  ∃ message status code id entries,
    f = .application .slotShape message status code (.dict id entries) ∧
      Value.lookup entries (.text "slot") = some (.text descriptor)

theorem Fault.tellsShape_notPath (d : String) :
    (Fault.ofShapeError (.notPath d)).TellsShape d :=
  ⟨_, _, _, _, _, rfl, rfl⟩

namespace Slot

/-- Reading texts and writing keys are inverse. A text is accepted exactly when, without the blanks
around it, it writes a path of attribute names, and is then read as that path, the only one that it
writes; every other text is refused with an error that tells it. So a slot that was read is read
again from its key, and slots that were read are the same when their keys are; and every valid slot
is read from its key. Each descriptor that names a slot names it as a field or as the whole target,
not as both, and one that names none is refused as either. -/
theorem reading_inverts_writing :
    (∀ d p, parse (.text d) = .ok p ↔ p.IsValid ∧ p.IsWrittenAs (Text.trim d)) ∧
      (∀ d, (∀ p : Slot, p.IsValid → ¬ p.IsWrittenAs (Text.trim d)) →
        ∃ e, parse (.text d) = .error e ∧ (Fault.ofShapeError e).TellsShape d) ∧
      (∀ text p q, IsValid p → IsValid q → p.IsWrittenAs text → q.IsWrittenAs text → p = q) ∧
      (∀ d d' p q, parse (.text d) = .ok p → parse (.text d') = .ok q →
        parse (.text p.key) = .ok p ∧ (p = q ↔ p.key = q.key)) ∧
      (∀ p : Slot, p.IsValid → parse (.text p.key) = .ok p) ∧
      (∀ d p, parse d = .ok p → ∃ kind, ∀ k q, parseAs k d = .ok q ↔ k = kind ∧ q = p) ∧
      ∀ d e kind, parse d = .error e → parseAs kind d = .error e := by
  refine ⟨fun d p ↦ parse_text_eq_ok_iff, fun d h ↦ ?_, fun text p q ↦ IsWrittenAs.unique, ?_,
    fun p ↦ parse_key, fun d p ↦ exists_kind_of_parse,
    fun d e kind h ↦ parseAs_of_parse_eq_error h kind⟩
  · exact ⟨_, parse_text_eq_error h, Fault.tellsShape_notPath d⟩
  · intro d d' p q hp hq
    have hp : p.IsValid := (parse_text_eq_ok_iff.mp hp).1
    have hq : q.IsValid := (parse_text_eq_ok_iff.mp hq).1
    exact ⟨parse_key hp, congrArg key, eq_of_key_eq hp hq⟩

/-- An attribute that is itself called `target` is written with the word in front, and read again
from its key; a text with a dot at its end writes no path. -/
theorem target_within_target :
    parse (.text " target.target.x\t") = .ok ⟨["target", "x"]⟩ ∧
      parse (.text (key ⟨["target", "x"]⟩)) = .ok ⟨["target", "x"]⟩ ∧
      ∃ e, parse (.text "target.") = .error e ∧ (Fault.ofShapeError e).TellsShape "target." := by
  obtain ⟨hread, hrefused, -, hkeys, -, -, -⟩ := reading_inverts_writing
  have htext : parse (.text " target.target.x\t") = .ok ⟨["target", "x"]⟩ :=
    (hread _ _).mpr ⟨by decide, Or.inl (by decide)⟩
  refine ⟨htext, (hkeys _ _ _ _ htext htext).1, hrefused _ fun p hp hwritten ↦ ?_⟩
  have hparse : parse (.text "target.") = .error (.notPath "target.") := by decide +kernel
  rw [(hread _ p).mpr ⟨hp, hwritten⟩] at hparse
  cases hparse

end Slot

end Recast
