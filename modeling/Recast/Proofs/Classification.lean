import Recast.Country.Remote
import Recast.Proofs.Continuation
import Mathlib.Data.Int.Notation
import Mathlib.Data.List.DropRight
import Mathlib.Tactic.Common

/-!
Answers of a remote directory. A lookup makes one request, to the base address without the slashes
at its end (`Remote.withoutSlashes_spec`) followed by the path of the country, and what comes back
decides how it ends: in a name exactly when a record of a country comes back with it
(`Remote.judgeReply_eq_name_iff`), and otherwise in a fault of the class that tells what went wrong
(`Remote.fault_of_judgeFailure`, `Remote.fault_of_judgeReply`). No request is made for an address
that is too long; the fault is then none of this library's. Nor is that of a body that would be told
and cannot be read as text in the encoding that the reply names. `Remote.lookup_is_classified` puts
these together.
-/

set_option autoImplicit false

namespace Recast

/-! ### Records of countries -/

namespace Schema

/-- What is found about a field that must be given. -/
def findRequired (check : List Place → Value → Finding) (name : String)
    (entries : List (Value × Value)) : Finding :=
  match Value.lookup entries (.text name) with
  | some v => check [.field name] v
  | none => wrong [.field name] "missing"

/-- What is found about two fields: all that is wrong, and the fields that are right. -/
def findBoth (first second : String) : Finding → Finding → List Issue × List (String × Value)
  | .ok v, .ok w => ([], [(first, v), (second, w)])
  | .ok v, .error issues => (issues, [(first, v)])
  | .error issues, .ok w => (issues, [(second, w)])
  | .error issues, .error more => (issues ++ more, [])

/-- The fields of a country are its number and its name, and both must be given. -/
theorem checkFields_country (entries : List (Value × Value)) :
    checkFields Model.country.fields [] entries = Action.done (findBoth "id" "name"
      (findRequired checkInteger "id" entries) (findRequired checkText "name" entries)) := by
  rw [Model.country, checkFields.eq_def]
  dsimp only
  rw [checkFields.eq_def]
  dsimp only
  rw [checkFields.eq_def]
  dsimp only [check, findRequired, List.nil_append]
  funext s
  cases Value.lookup entries (.text "id") with
  | none =>
    cases Value.lookup entries (.text "name") with
    | none => rfl
    | some w =>
      cases hw : checkText [.field "name"] w <;>
        simp [Bind.bind, Action.bind, Pure.pure, Action.done, hw, wrong, findBoth]
  | some v =>
    cases hv : checkInteger [.field "id"] v <;> cases Value.lookup entries (.text "name") with
    | none => simp [Bind.bind, Action.bind, Pure.pure, Action.done, hv, wrong, findBoth]
    | some w =>
      cases hw : checkText [.field "name"] w <;>
        simp [Bind.bind, Action.bind, Pure.pure, Action.done, hv, hw, findBoth]

/-- Where a text stands makes no difference to whether it is one. -/
theorem checkText_eq_ok_iff (place place' : List Place) (v w : Value) :
    checkText place v = .ok w ↔ checkText place' v = .ok w := by
  cases v with
  | bytes bs =>
    simp only [checkText]
    cases textOfBytes? bs <;> simp [wrong]
  | _ => simp [checkText, wrong]

theorem checkIntegerText_eq_ok_iff (place place' : List Place) (s : String) (w : Value) :
    checkIntegerText place s = .ok w ↔ checkIntegerText place' s = .ok w := by
  unfold checkIntegerText
  split_ifs
  · simp [wrong]
  · cases integerOfText? s <;> simp [wrong]

/-- Where a number stands makes no difference to whether it is one. -/
theorem checkInteger_eq_ok_iff (place place' : List Place) (v w : Value) :
    checkInteger place v = .ok w ↔ checkInteger place' v = .ok w := by
  cases v with
  | float x =>
    simp only [checkInteger]
    split_ifs
    · simp [wrong]
    · cases x.toInt? with
      | none => simp [wrong]
      | some n =>
        dsimp only
        split_ifs <;> simp [wrong]
  | text s => exact checkIntegerText_eq_ok_iff place place' s w
  | bytes bs =>
    simp only [checkInteger]
    cases textOfBytes? bs with
    | none => simp [wrong]
    | some s => exact checkIntegerText_eq_ok_iff place place' s w
  | _ => simp [checkInteger, wrong]

/-- A finding that is wrong tells at least one thing that is. -/
def Finding.Tells (f : Finding) : Prop := ∀ issues, f = .error issues → issues ≠ []

theorem tells_wrong (place : List Place) (type : String) : (wrong place type).Tells := by
  rintro _ ⟨⟩
  exact List.cons_ne_nil _ _

theorem tells_ok (v : Value) : Finding.Tells (.ok v) := fun _ h ↦ by cases h

theorem tells_checkText (place : List Place) (v : Value) : (checkText place v).Tells := by
  cases v with
  | text s => exact tells_ok _
  | bytes bs =>
    simp only [checkText]
    cases textOfBytes? bs with
    | some s => exact tells_ok _
    | none => exact tells_wrong _ _
  | _ => exact tells_wrong _ _

theorem tells_checkIntegerText (place : List Place) (s : String) :
    (checkIntegerText place s).Tells := by
  unfold checkIntegerText
  split_ifs
  · exact tells_wrong _ _
  · cases integerOfText? s with
    | some n => exact tells_ok _
    | none => exact tells_wrong _ _

theorem tells_checkInteger (place : List Place) (v : Value) : (checkInteger place v).Tells := by
  cases v with
  | bool | int => exact tells_ok _
  | float x =>
    simp only [checkInteger]
    split_ifs
    · exact tells_wrong _ _
    · cases x.toInt? with
      | none => exact tells_wrong _ _
      | some n =>
        dsimp only
        split_ifs
        · exact tells_ok _
        · exact tells_wrong _ _
  | text s => exact tells_checkIntegerText place s
  | bytes bs =>
    simp only [checkInteger]
    cases textOfBytes? bs with
    | none => exact tells_wrong _ _
    | some s => exact tells_checkIntegerText place s
  | _ => exact tells_wrong _ _

theorem tells_findRequired {check : List Place → Value → Finding}
    (h : ∀ place v, (check place v).Tells) (name : String) (entries : List (Value × Value)) :
    (findRequired check name entries).Tells := by
  unfold findRequired
  cases Value.lookup entries (.text name) with
  | some v => exact h _ v
  | none => exact tells_wrong _ _

/-- Something is found wrong about two fields unless both are right. -/
theorem findBoth_ne_nil {first second : String} {f g : Finding} (hf : f.Tells) (hg : g.Tells)
    (h : ∀ v w, ¬ (f = .ok v ∧ g = .ok w)) : (findBoth first second f g).1 ≠ [] := by
  cases f with
  | ok v =>
    cases g with
    | ok w => exact absurd ⟨rfl, rfl⟩ (h v w)
    | error issues => exact hg issues rfl
  | error issues =>
    cases g with
    | ok w => exact hf issues rfl
    | error more => exact List.append_ne_nil_of_left_ne_nil (hf issues rfl) more

end Schema

namespace Model

/-- Wherever it is made, a record of the model is made of the entries, and its field holds this. -/
def Fills (m : Model) (entries : List (Value × Value)) (field : String) (v : Value) : Prop :=
  ∀ s : Store, ∃ ref s' record, m.make entries s = (.ok (.record ref m.name), s') ∧
    s'.records[ref]? = some record ∧ record.fields.lookup field = some v

/-- What is found about the fields decides whether a record is made. -/
theorem make_of_checkFields {m : Model} {entries : List (Value × Value)}
    {found : List Issue × List (String × Value)}
    (h : Schema.checkFields m.fields [] entries = Action.done found) (s : Store) :
    m.make entries s =
      if found.1 = [] then
        Action.newRecord m.name
          (found.2 ++ if m.extra then Schema.undeclared m.fields entries else []) s
      else Action.fail (.invalid m.name found.1) s := by
  obtain ⟨issues, values⟩ := found
  simp only [make, shape, Schema.check, Bind.bind, Action.bind, Pure.pure, h, Action.done]
  cases issues with
  | nil => rfl
  | cons issue rest => rfl

/-- The record that is made of a country's entries with a number and a name. -/
theorem make_country {entries : List (Value × Value)} {number name : Value}
    (hnumber : Schema.findRequired Schema.checkInteger "id" entries = .ok number)
    (hname : Schema.findRequired Schema.checkText "name" entries = .ok name) (s : Store) :
    country.make entries s = Action.newRecord country.name
      ([("id", number), ("name", name)] ++ Schema.undeclared country.fields entries) s := by
  rw [make_of_checkFields (Schema.checkFields_country entries), hnumber, hname]
  rfl

/-- A country's record is made exactly when its entries have a number and a name, and it holds the
name. -/
theorem fills_country_iff {entries : List (Value × Value)} {name : Value} :
    country.Fills entries "name" name ↔
      (∃ number, Schema.findRequired Schema.checkInteger "id" entries = .ok number) ∧
        Schema.findRequired Schema.checkText "name" entries = .ok name := by
  constructor
  · intro h
    obtain ⟨ref, s', record, hmake, hrecord, hlookup⟩ := h Store.empty
    by_cases hboth : ∃ number found,
        Schema.findRequired Schema.checkInteger "id" entries = .ok number ∧
          Schema.findRequired Schema.checkText "name" entries = .ok found
    · obtain ⟨number, found, hnumber, hfound⟩ := hboth
      rw [make_country hnumber hfound] at hmake
      cases hmake
      simp only [Array.getElem?_push_size, Option.some.injEq] at hrecord
      subst hrecord
      obtain rfl : found = name := Option.some.inj hlookup
      exact ⟨⟨number, hnumber⟩, hfound⟩
    · have hissues : (Schema.findBoth "id" "name"
          (Schema.findRequired Schema.checkInteger "id" entries)
          (Schema.findRequired Schema.checkText "name" entries)).1 ≠ [] :=
        Schema.findBoth_ne_nil (Schema.tells_findRequired Schema.tells_checkInteger "id" entries)
          (Schema.tells_findRequired Schema.tells_checkText "name" entries)
          fun number found hok ↦ hboth ⟨number, found, hok⟩
      rw [make_of_checkFields (Schema.checkFields_country entries), if_neg hissues] at hmake
      cases hmake
  · rintro ⟨⟨number, hnumber⟩, hname⟩ s
    exact ⟨_, _, _, make_country hnumber hname s, Array.getElem?_push_size, rfl⟩

end Model

/-! ### Bodies -/

namespace Remote

/-- The name that is looked for in entries is the one that the record made of them holds. -/
theorem nameIn_eq_ok_iff {entries : List (Value × Value)} {name : Value} :
    nameIn entries = .ok name ↔ Model.country.Fills entries "name" name := by
  rw [Model.fills_country_iff, nameIn, Schema.findRequired, Schema.findRequired]
  cases hid : Value.lookup entries (.text "id") with
  | none => simp [Schema.wrong]
  | some v =>
    cases hname : Value.lookup entries (.text "name") with
    | none => cases Schema.checkInteger [] v <;> simp [Schema.wrong]
    | some w =>
      simp only [Option.map_some, Schema.checkInteger_eq_ok_iff [.field "id"] [],
        Schema.checkText_eq_ok_iff [.field "name"] []]
      cases Schema.checkInteger [] v <;> cases Schema.checkText [] w <;> simp

/-- A body is the notation of an object of which a country's record is made, with this name. -/
def Reply.HoldsCountry (r : Reply) (name : Value) : Prop :=
  ∃ members, r.json = .ok (.object members) ∧
    Model.country.Fills (entriesOf members) "name" name

theorem Reply.name_eq_ok_iff {r : Reply} {name : Value} :
    r.name = .ok name ↔ r.HoldsCountry name := by
  unfold Reply.name Reply.entries Reply.HoldsCountry
  cases r.json with
  | error e => simp
  | ok j =>
    cases j with
    | object members => simp [nameIn_eq_ok_iff]
    | _ => simp

/-! ### Verdicts -/

/-- The fault is one of the class, and its details tell this under this name. -/
def TellsAs (cls : ErrorClass) (name : String) (v : Value) (f : Fault) : Prop :=
  ∃ message status code id entries,
    f = .application cls message status code (.dict id entries) ∧
      Value.lookup entries (.text name) = some v

section Verdicts

variable {c : Client} {s : Store} {url : String} {country name : Value} {r : Reply}

/-- The class of the fault for a failure of the transport: time that ran out comes first. -/
def TransportError.cls (e : TransportError) : ErrorClass :=
  if e.isTimeout then .sourceTimeout else if e = .connect then .sourceConnection else .source

/-- A failure of the transport gives a fault of its class, which tells the address. -/
theorem fault_of_judgeFailure (c : Client) (s : Store) (url : String) (e : TransportError)
    (text : String) : ∃ f, judgeFailure c s url e text = .fault f (some e.name) ∧
      TellsAs e.cls "endpoint" (.text url) f := by
  unfold judgeFailure TransportError.cls
  by_cases htime : e.isTimeout
  · exact ⟨_, if_pos htime, by rw [if_pos htime]; exact ⟨_, _, _, _, _, rfl, rfl⟩⟩
  · rw [if_neg htime, if_neg htime]
    by_cases hconnect : e = .connect
    · exact ⟨_, if_pos hconnect, by rw [if_pos hconnect]; exact ⟨_, _, _, _, _, rfl, rfl⟩⟩
    · exact ⟨_, if_neg hconnect, by rw [if_neg hconnect]; exact ⟨_, _, _, _, _, rfl, rfl⟩⟩

theorem Reply.telling_ne_name (r : Reply) (told : String → Fault) (cause : Option String) :
    r.telling told cause ≠ .name name := by
  unfold Reply.telling
  cases r.shown <;> simp

/-- A reply gives a name exactly when it is a good one with a country's record. -/
theorem judgeReply_eq_name_iff :
    judgeReply s url country r = .name name ↔ r.status = 200 ∧ r.HoldsCountry name := by
  rw [← Reply.name_eq_ok_iff]
  unfold judgeReply
  by_cases hmissing : r.status = 404
  · simp [hmissing]
  · by_cases hgood : r.status = 200
    · rw [if_neg hmissing, if_neg (not_not.mpr hgood)]
      cases r.name <;> simp [hgood, Reply.telling_ne_name]
    · simp [hmissing, hgood, Reply.telling_ne_name]

/-- A reply that there is none gives a fault that tells the country, whatever its body is. -/
theorem fault_of_missing (hr : r.status = 404) :
    ∃ f cause, judgeReply s url country r = .fault f cause ∧
      TellsAs .notFound "country_id" country f :=
  ⟨_, _, if_pos hr, _, _, _, _, _, rfl, rfl⟩

/-- The fault that tells the start of a body, or that of the reading. -/
theorem Reply.telling_eq (r : Reply) (told : String → Fault) (cause : Option String) :
    (∀ text, r.text = .ok text →
      r.telling told cause =
        .fault (told (String.ofList (text.toList.take shownLength))) cause) ∧
      ∀ f, r.text = .error f → r.telling told cause = .fault f none := by
  refine ⟨fun text htext ↦ ?_, fun f htext ↦ ?_⟩ <;> rw [telling, shown, htext] <;> rfl

/-- Any other reply without a name gives a fault that tells the address, if its body can be read as
text, and else the fault of the reading. -/
theorem fault_of_judgeReply (hr : r.status ≠ 404)
    (hname : r.status = 200 → ∀ name, ¬ r.HoldsCountry name) :
    (∀ text, r.text = .ok text → ∃ f cause, judgeReply s url country r = .fault f cause ∧
      TellsAs .source "endpoint" (.text url) f) ∧
      ∀ f, r.text = .error f → judgeReply s url country r = .fault f none := by
  -- both kinds of such replies are told with the start of the body
  obtain ⟨told, cause, hjudge, htells⟩ : ∃ told cause,
      judgeReply s url country r = r.telling told cause ∧
        ∀ start, TellsAs .source "endpoint" (.text url) (told start) := by
    unfold judgeReply
    rw [if_neg hr]
    by_cases hgood : r.status = 200
    · rw [if_neg (not_not.mpr hgood)]
      cases hbody : r.name with
      | ok name => exact absurd (Reply.name_eq_ok_iff.mp hbody) (hname hgood name)
      | error e => exact ⟨_, _, rfl, fun _ ↦ ⟨_, _, _, _, _, rfl, rfl⟩⟩
    · exact ⟨_, _, if_pos hgood, fun _ ↦ ⟨_, _, _, _, _, rfl, rfl⟩⟩
  obtain ⟨hread, hunread⟩ := r.telling_eq told cause
  rw [hjudge]
  exact ⟨fun text htext ↦ ⟨_, _, hread text htext, htells _⟩, hunread⟩

end Verdicts

/-! ### Addresses -/

/-- The address without the slashes at its end is followed by slashes alone, and by itself it ends
in none. -/
theorem withoutSlashes_spec (base : String) :
    (∃ slashes : ℕ, base = withoutSlashes base ++ String.ofList (List.replicate slashes '/')) ∧
      ∀ front : String, withoutSlashes base ≠ front ++ "/" := by
  have hchars : (withoutSlashes base).toList = base.toList.rdropWhile (· == '/') :=
    String.toList_ofList
  refine ⟨⟨(base.toList.rtakeWhile (· == '/')).length, ?_⟩, fun front hend ↦ ?_⟩
  · have hslashes : base.toList.rtakeWhile (· == '/') =
        List.replicate (base.toList.rtakeWhile (· == '/')).length '/' :=
      List.eq_replicate_of_mem fun c hc ↦ by
        have hslash := List.mem_rtakeWhile_imp hc
        exact beq_iff_eq.mp hslash
    apply String.toList_injective
    rw [String.toList_append, hchars, String.toList_ofList, ← hslashes]
    have hsplit := List.takeWhile_append_dropWhile (p := (· == '/')) (l := base.toList.reverse)
    rw [List.rdropWhile, List.rtakeWhile, ← List.reverse_append, hsplit, List.reverse_reverse]
  · have hlast : base.toList.rdropWhile (· == '/') = front.toList ++ ['/'] := by
      rw [← hchars, hend, String.toList_append]
      rfl
    have hne : base.toList.rdropWhile (· == '/') ≠ [] := by simp [hlast]
    refine List.rdropWhile_last_not (· == '/') base.toList hne ?_
    simp [hlast]

/-- An address that ends in another character is left as it is. -/
theorem withoutSlashes_push {s : String} {c : Char} (hc : c ≠ '/') :
    withoutSlashes (s.push c) = s.push c := by
  have hdrop : (s.push c).toList.reverse.dropWhile (· == '/') = (s.push c).toList.reverse := by
    simp [String.toList_push, hc]
  rw [withoutSlashes, hdrop, List.reverse_reverse, String.ofList_toList]

/-- The path of the country stands behind the base address. -/
theorem url_int (c : Client) (s : Store) (n : ℤ) :
    c.url s (.int n) = withoutSlashes c.base ++ "/countries/" ++ toString n := rfl

/-! ### Lookups -/

/-- The end of a lookup tells what came back: a name exactly for a good reply with a country's
record, and else a fault of the class for what went wrong. Only where a body that would be told
cannot be read as text, the fault of the reading comes instead. -/
def Classifies (url : String) (country : Value) (o : Outcome) : Exchange → Prop
  | .failure e _ => ∃ id f, o = .error ⟨id, f⟩ ∧ TellsAs e.cls "endpoint" (.text url) f
  | .reply r =>
    (∀ name, o = .ok name ↔ r.status = 200 ∧ r.HoldsCountry name) ∧
      (r.status = 404 →
        ∃ id f, o = .error ⟨id, f⟩ ∧ TellsAs .notFound "country_id" country f) ∧
      (r.status ≠ 404 → (r.status = 200 → ∀ name, ¬ r.HoldsCountry name) →
        (∀ text, r.text = .ok text →
          ∃ id f, o = .error ⟨id, f⟩ ∧ TellsAs .source "endpoint" (.text url) f) ∧
        ∀ f, r.text = .error f → ∃ id, o = .error ⟨id, f⟩)

/-- How a lookup ends that is judged like this. -/
def Verdict.outcome (id : ℕ) : Verdict → Outcome
  | .name v => .ok v
  | .fault f _ => .error ⟨id, f⟩

section Lookup

variable {c : Client} {s : Store} {country : Value} {transport : String → Exchange}

/-- What came back is judged as it is told. -/
theorem classifies_judge (c : Client) (s : Store) (country : Value) (id : ℕ) (x : Exchange) :
    Classifies (c.url s country) country ((judge c s country x).outcome id) x := by
  cases x with
  | failure e text =>
    obtain ⟨f, hjudge, htells⟩ := fault_of_judgeFailure c s (c.url s country) e text
    exact ⟨id, f, by rw [judge, hjudge, Verdict.outcome], htells⟩
  | reply r =>
    refine ⟨fun name ↦ ?_, fun hr ↦ ?_, fun hr hname ↦ ?_⟩
    · rw [judge, ← judgeReply_eq_name_iff]
      cases judgeReply s (c.url s country) country r <;> simp [Verdict.outcome]
    · obtain ⟨f, cause, hjudge, htells⟩ := fault_of_missing hr
      exact ⟨id, f, by rw [judge, hjudge, Verdict.outcome], htells⟩
    · obtain ⟨hread, hunread⟩ := fault_of_judgeReply hr hname
      refine ⟨fun text htext ↦ ?_, fun f htext ↦ ⟨id, ?_⟩⟩
      · obtain ⟨f, cause, hjudge, htells⟩ := hread text htext
        exact ⟨id, f, by rw [judge, hjudge, Verdict.outcome], htells⟩
      · rw [judge, hunread f htext, Verdict.outcome]

/-- A lookup ends at once, as its inquiry is judged. -/
theorem run_lookup (c : Client) (transport : String → Exchange) (country : Value) (m : Machine) :
    ∃ m' id, m.run (c.lookup transport country) = (m', .settled
      (((c.inquire (c.tell country m.store).2 country).verdict transport).outcome id)) := by
  refine ⟨_, (c.tell country m.store).2.nextId,
    (Machine.run_ofAction _ m).trans (Prod.ext rfl ?_)⟩
  dsimp only [Machine.act]
  cases (c.inquire (c.tell country m.store).2 country).verdict transport <;> rfl

/-- The address can be written, and it is not too long to be sent. -/
def Client.CanAsk (c : Client) (s : Store) (country : Value) : Prop :=
  unwritable country = false ∧ (c.url s country).length ≤ longestUrl

/-- For an address that can be sent one request is made, and what comes back is judged. -/
theorem inquire_of_canAsk (h : c.CanAsk s country) :
    (c.inquire s country).requests transport = [⟨"GET", sentUrl (c.url s country)⟩] ∧
      (c.inquire s country).verdict transport =
        judge c s country (transport (sentUrl (c.url s country))) := by
  have hwritten : ¬ unwritable country = true := by simp [h.1]
  have hshort : ¬ longestUrl < (c.url s country).length := Nat.not_lt.mpr h.2
  have hask : c.inquire s country =
      .ask ⟨"GET", sentUrl (c.url s country)⟩ fun x ↦ .decided (judge c s country x) := by
    rw [Client.inquire, if_neg hwritten, if_neg hshort]
  simp [hask, Inquiry.requests, Inquiry.verdict]

/-- For any other address no request is made, and the fault tells neither the address nor the
country. -/
theorem inquire_of_not_canAsk (h : ¬ c.CanAsk s country) :
    (c.inquire s country).requests transport = [] ∧
      ((c.inquire s country).verdict transport = .fault numberTooLong none ∨
        (c.inquire s country).verdict transport = .fault urlTooLong none) := by
  rw [Client.inquire]
  by_cases hwritten : unwritable country = true
  · rw [if_pos hwritten]
    exact ⟨rfl, .inl rfl⟩
  · have hlong : longestUrl < (c.url s country).length :=
      Nat.lt_of_not_le fun hle ↦ h ⟨Bool.not_eq_true _ ▸ hwritten, hle⟩
    rw [if_neg hwritten, if_pos hlong]
    exact ⟨rfl, .inr rfl⟩

end Lookup

/-- Every lookup of a number ends. As long as the address can be sent, it is the base address
without the slashes at its end and the path of the country, it is asked for exactly once, and the
end tells what came back. Otherwise nothing is asked for, and the fault is one that tells of the
address's form alone. -/
theorem lookup_is_classified (c : Client) (transport : String → Exchange) (n : ℤ) (m : Machine) :
    ((∃ slashes : ℕ, c.base =
        withoutSlashes c.base ++ String.ofList (List.replicate slashes '/')) ∧
      ∀ front : String, withoutSlashes c.base ≠ front ++ "/") ∧
    let url := withoutSlashes c.base ++ "/countries/" ++ toString n
    let inquiry := c.inquire (c.tell (.int n) m.store).2 (.int n)
    ∃ m' o, m.run (c.lookup transport (.int n)) = (m', .settled o) ∧
      ((Nat.toDigits 10 n.natAbs).length ≤ longestNumber ∧ url.length ≤ longestUrl →
        inquiry.requests transport = [⟨"GET", sentUrl url⟩] ∧
          Classifies url (.int n) o (transport (sentUrl url))) ∧
      (¬ ((Nat.toDigits 10 n.natAbs).length ≤ longestNumber ∧ url.length ≤ longestUrl) →
        inquiry.requests transport = [] ∧
          ∃ id, o = .error ⟨id, numberTooLong⟩ ∨ o = .error ⟨id, urlTooLong⟩) := by
  refine ⟨withoutSlashes_spec c.base, ?_⟩
  intro url inquiry
  obtain ⟨m', id, hrun⟩ := run_lookup c transport (.int n) m
  have hcan : c.CanAsk (c.tell (.int n) m.store).2 (.int n) ↔
      (Nat.toDigits 10 n.natAbs).length ≤ longestNumber ∧ url.length ≤ longestUrl := by
    rw [Client.CanAsk, url_int, unwritable, decide_eq_false_iff_not, Nat.not_lt]
  refine ⟨m', _, hrun, fun hfits ↦ ?_, fun hfits ↦ ?_⟩
  · obtain ⟨hrequests, hverdict⟩ := inquire_of_canAsk (hcan.mpr hfits)
    refine ⟨hrequests, ?_⟩
    rw [hverdict]
    exact classifies_judge c _ (.int n) id _
  · obtain ⟨hrequests, hverdict⟩ := inquire_of_not_canAsk (mt hcan.mp hfits)
    refine ⟨hrequests, id, ?_⟩
    rcases hverdict with hverdict | hverdict
    · exact .inl (by rw [hverdict, Verdict.outcome])
    · exact .inr (by rw [hverdict, Verdict.outcome])

namespace Sample

/-- A directory whose base address leaves no room for the path of a country. -/
def farDirectory : Client :=
  ⟨("http://h/" ++ String.ofList (List.replicate 65519 'a')).push 'a', .null⟩

/-- Nothing comes of a lookup in the far directory, whatever would come back. -/
theorem far_directory_is_not_asked :
    (∀ transport, (farDirectory.inquire Store.empty (.int 1)).requests transport = []) ∧
      ∀ transport, (farDirectory.inquire Store.empty (.int 1)).verdict transport =
        .fault urlTooLong none := by
  have hlong : longestUrl < (farDirectory.url Store.empty (.int 1)).length := by
    have hbase : "http://h/".length = 9 := rfl
    have hpath : "/countries/".length = 11 := rfl
    rw [url_int, farDirectory, withoutSlashes_push (by decide), longestUrl]
    simp only [String.length_append, String.length_push, String.length_ofList,
      List.length_replicate, hbase, hpath]
    omega
  have hdecided : farDirectory.inquire Store.empty (.int 1) =
      .decided (.fault urlTooLong none) := by
    rw [Client.inquire, if_neg (by decide), if_pos hlong]
  simp [hdecided, Inquiry.requests, Inquiry.verdict]

/-- The body of this reply cannot be told, and the fault of the reading comes instead. -/
example (s : Store) (url : String) (country : Value) (complaint : BodyError → String) :
    judgeReply s url country ⟨500, [97], some .idna, 10, complaint⟩ =
      .fault (.general "UnicodeError" [.text "Unsupported error handling: replace"]) none := rfl

end Sample

end Remote

end Recast
