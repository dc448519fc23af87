import Recast.Mapping.Mapper

/-!
Builders: they collect rules that map a source type onto a target type. A registration is refused
when its descriptor does not have the shape of its kind, and else when its slot overlaps a claimed
one; such a refusal changes nothing. Else the slot is claimed, and then the offered compute is
looked at; when that raises there is no rule, but the slot stays claimed. From the rules collected
so far a mapper can be made at any time.
-/

set_option autoImplicit false

namespace Recast

/-- A builder: its number, the names of the two types, the rules in the order of registration, and
the claimed slots by key. -/
structure Builder where
  id : Nat
  source : String
  target : String
  rules : List Rule
  slots : List (String × Slot)

/-- Why a registration is refused. -/
inductive RegistrationError where
  /-- The descriptor does not have the shape of the kind. -/
  | shape (e : Slot.ShapeError)
  /-- The slot overlaps one that was claimed before. -/
  | duplicate (slot claimedBy : Slot)
  /-- Looking at what is offered as the compute raised. -/
  | inspection (f : Fault)

/-- Why no mapper can be made. -/
inductive BuildError where
  /-- There are no rules. -/
  | noRules
  /-- The rules for these slots are asynchronous. -/
  | asynchronous (slots : List String)
  deriving DecidableEq

namespace RegistrationError

/-- The fault of a refused registration. -/
def toFault : RegistrationError → Fault
  | .shape e => Fault.ofShapeError e
  | .duplicate slot claimedBy => Fault.duplicateSlot slot.key claimedBy.key
  | .inspection f => f

end RegistrationError

namespace BuildError

/-- The fault of a refused mapper. -/
def toFault : BuildError → Fault
  | .noRules => Fault.noRules
  | .asynchronous slots => Fault.asynchronousRule slots

end BuildError

namespace Builder

/-- A builder without rules. -/
def empty (id : Nat) (source target : String) : Builder := ⟨id, source, target, [], []⟩

/-- How a builder is shown. -/
def shown (b : Builder) : String :=
  "MapperBuilder(" ++ b.source ++ " -> " ++ b.target ++ ", rules=" ++ toString b.rules.length ++ ")"

/-- The number of rules. -/
def size (b : Builder) : Nat := b.rules.length

/-- The keys of the claimed slots. -/
def keys (b : Builder) : List String := b.slots.map Prod.fst

/-- The earliest claimed slot that overlaps a slot. -/
def claimedBy? (b : Builder) (s : Slot) : Option Slot :=
  (b.slots.map Prod.snd).find? s.overlaps

/-- The slot that a registration would claim, or why it is refused. -/
def claim (b : Builder) (kind : Slot.Kind) (d : Slot.Descriptor) : Except RegistrationError Slot :=
  match Slot.parseAs kind d with
  | .error e => .error (.shape e)
  | .ok s =>
    match b.claimedBy? s with
    | some claimed => .error (.duplicate s claimed)
    | none => .ok s

/-- The rule that a registration adds. -/
def newRule (b : Builder) (kind : Slot.Kind) (s : Slot) (c : Compute) : Rule :=
  ⟨kind, ⟨s, ⟨b.id, b.rules.length⟩⟩, c⟩

/-- The builder with a slot claimed. -/
def claiming (b : Builder) (s : Slot) : Builder := { b with slots := assign b.slots s.key s }

/-- The builder with a rule added and its slot claimed. -/
def push (b : Builder) (r : Rule) : Builder :=
  { b with rules := b.rules ++ [r], slots := assign b.slots r.key r.binder.slot }

/-- Offer a compute for a slot: why there is no rule for it, if there is none, and the builder that
is left. The slot is claimed before the offer is looked at. A refused offer is looked at as well,
for an awaitable has to be given up then; when that raises, it takes the place of the refusal. -/
def offer (b : Builder) (kind : Slot.Kind) (d : Slot.Descriptor) (o : Offer) :
    Option RegistrationError × Builder :=
  match b.claim kind d with
  | .error e =>
    match o.isAwaitable with
    | .error f => (some (.inspection f), b)
    | .ok _ => (some e, b)
  | .ok s =>
    let claimed := b.claiming s
    match Rule.create kind ⟨s, ⟨b.id, b.rules.length⟩⟩ o with
    | .error f => (some (.inspection f), claimed)
    | .ok r => (none, { claimed with rules := b.rules ++ [r] })

/-- The builder that is left by an offer. -/
def left (b : Builder) (kind : Slot.Kind) (d : Slot.Descriptor) (o : Offer) : Builder :=
  (b.offer kind d o).2

/-- Register a rule for a compute that can be looked at. -/
def register (b : Builder) (kind : Slot.Kind) (d : Slot.Descriptor) (c : Compute) :
    Except RegistrationError Builder :=
  match b.offer kind d (.clear c) with
  | (some e, _) => .error e
  | (none, b') => .ok b'

/-- The record of a rule that was just registered. -/
def registrationEntry (b : Builder) (r : Rule) : Log.Entry :=
  { logger := Mapper.logger
    level := .debug
    message := "Mapping rule registered"
    extra :=
      [("mapper", .text b.shown), ("slot", .text r.key), ("kind", .text r.kind.name),
        ("is_async", .bool r.isAsync)] }

/-- The record of a mapper that was just made. -/
def buildEntry (b : Builder) (asynchronous : Bool) : Log.Entry :=
  { logger := Mapper.logger
    level := .debug
    message := if asynchronous then "Async mapper built" else "Sync mapper built"
    extra := [("mapper", .text b.shown)] }

/-- The mapper of the rules collected so far. -/
def snapshot (b : Builder) : Mapper := ⟨b.shown, b.target, b.rules⟩

/-- The keys of the asynchronous rules, in order. -/
def asynchronousKeys (b : Builder) : List String := (b.rules.filter Rule.isAsync).map Rule.key

/-- A mapper for asynchronous use. -/
def build (b : Builder) : Except BuildError Mapper :=
  if b.rules.isEmpty then .error .noRules else .ok b.snapshot

/-- A mapper for synchronous use. -/
def buildSync (b : Builder) : Except BuildError Mapper :=
  if b.rules.isEmpty then .error .noRules
  else if b.asynchronousKeys.isEmpty then .ok b.snapshot
  else .error (.asynchronous b.asynchronousKeys)

/-- Offer a compute for a slot and log the rule that was registered for it. The result is the
builder that follows, or why there is no rule. -/
def offerLogged (b : Builder) (kind : Slot.Kind) (d : Slot.Descriptor) (o : Offer) :
    Action Builder :=
  match b.offer kind d o with
  | (some e, _) => Action.fail e.toFault
  | (none, b') =>
    match b'.rules.getLast? with
    | some r => Action.bind (Action.report (registrationEntry b' r)) fun _ => Action.done b'
    | none => Action.done b'

/-- Register a rule for a compute that can be looked at and log it. -/
def registerLogged (b : Builder) (kind : Slot.Kind) (d : Slot.Descriptor) (c : Compute) :
    Action Builder :=
  b.offerLogged kind d (.clear c)

/-- Make a mapper for asynchronous use and log it. -/
def buildLogged (b : Builder) : Action Mapper :=
  match b.build with
  | .error e => Action.fail e.toFault
  | .ok m => Action.bind (Action.report (b.buildEntry true)) fun _ => Action.done m

/-- Make a mapper for synchronous use and log it. -/
def buildSyncLogged (b : Builder) : Action Mapper :=
  match b.buildSync with
  | .error e => Action.fail e.toFault
  | .ok m => Action.bind (Action.report (b.buildEntry false)) fun _ => Action.done m

/-- Register field rules in order and log them. -/
def registerFields (b : Builder) : List (String × Compute) → Action Builder
  | [] => Action.done b
  | (slot, c) :: rest =>
    Action.bind (b.registerLogged .field (.text slot) c) fun b => b.registerFields rest

end Builder

end Recast
