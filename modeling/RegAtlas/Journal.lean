import RegAtlas.Fault

namespace RegAtlas

inductive Level where
  | error
  | warn
  | info
  | debug
  | trace
deriving Repr, DecidableEq

namespace Level

def text : Level → String
  | error => "ERROR"
  | warn => "WARN "
  | info => "INFO "
  | debug => "DEBUG"
  | trace => "TRACE"

def rank : Level → Nat
  | error => 0
  | warn => 1
  | info => 2
  | debug => 3
  | trace => 4

end Level

inductive Event where
  | loading (path : String)
  | enumsBuilt (place : Breadcrumb) (count : Nat)
  | blockBuilt (place : Breadcrumb) (registers : Nat)
  | bitsGiven (place : Breadcrumb) (positions : List Nat)
  | registerAdded (place : Breadcrumb) (name : String) (address : Option Word)
  | mapBuilt (name : String) (registers enums blocks : Nat)
  | bitVisited (place : Breadcrumb) (position : Nat)
  | mapChecked (name : String) (registers : Nat)
  | decodingDump (values : Nat)
  | noRegister (address : Word)
  | running (generator path : String)
  | wrote (path : String)
deriving Repr, DecidableEq

namespace Event

def level : Event → Level
  | bitsGiven _ _ | bitVisited _ _ => .trace
  | loading _ | enumsBuilt _ _ | blockBuilt _ _ | registerAdded _ _ _ | mapChecked _ _
  | decodingDump _ => .debug
  | mapBuilt _ _ _ _ | running _ _ | wrote _ => .info
  | noRegister _ => .warn

def source : Event → String
  | loading _ => "registers_regmap"
  | enumsBuilt _ _ | blockBuilt _ _ | bitsGiven _ _ | registerAdded _ _ _ | mapBuilt _ _ _ _ =>
    "registers_regmap::convert"
  | bitVisited _ _ | mapChecked _ _ => "registers_regmap::validate"
  | decodingDump _ | noRegister _ => "registers_generator::md::regdump"
  | running _ _ | wrote _ => "reggen"

def text : Event → String
  | loading path => s!"Loading register map from {path}"
  | enumsBuilt place count => s!"{place.text}: converted {count} shared enums"
  | blockBuilt place registers => s!"{place.text}: {registers} register templates"
  | bitsGiven place positions =>
    s!"{place.text}: [" ++ ", ".intercalate (positions.map toString) ++ "]"
  | registerAdded place name (some address) =>
    s!"{place.text}: register {name} at {Numeral.hex address}"
  | registerAdded place name none => s!"{place.text}: register {name} without address"
  | mapBuilt name registers enums blocks =>
    s!"{name}: {registers} registers, {enums} shared enums, {blocks} register block templates"
  | bitVisited place position => s!"{place.text}: bit {position}"
  | mapChecked name registers => s!"{name}: validated {registers} registers"
  | decodingDump values => s!"Decoding {values} dump values"
  | noRegister address => s!"No register at dump address {Numeral.hexUpper address}"
  | running generator path => s!"Running {generator} on {path}"
  | wrote path => s!"Wrote {path}"

def line (e : Event) : String := s!"{e.level.text} [{e.source}] {e.text}"

end Event

structure Logged (ε α : Type) where
  events : List Event
  result : Except ε α

namespace Logged

variable {ε α β : Type}

def bind (x : Logged ε α) (f : α → Logged ε β) : Logged ε β :=
  match x.result with
  | .ok a => ⟨x.events ++ (f a).events, (f a).result⟩
  | .error e => ⟨x.events, .error e⟩

instance : Monad (Logged ε) where
  pure a := ⟨[], .ok a⟩
  bind := bind

instance : MonadLift (Except ε) (Logged ε) := ⟨fun r => ⟨[], r⟩⟩

def fail (e : ε) : Logged ε α := ⟨[], .error e⟩

def report (e : Event) : Logged ε Unit := ⟨[e], .ok ()⟩

def mapError {ε' : Type} (f : ε → ε') (x : Logged ε α) : Logged ε' α :=
  ⟨x.events, x.result.mapError f⟩

@[simp] theorem result_pure (a : α) : (pure a : Logged ε α).result = .ok a := rfl

@[simp] theorem result_bind (x : Logged ε α) (f : α → Logged ε β) :
    (x >>= f).result = x.result.bind fun a => (f a).result := by
  change (bind x f).result = _
  unfold bind
  cases x.result <;> rfl

@[simp] theorem result_report (e : Event) : (report e : Logged ε Unit).result = .ok () := rfl

@[simp] theorem result_fail (e : ε) : (fail e : Logged ε α).result = .error e := rfl

@[simp] theorem result_liftM (r : Except ε α) : (liftM r : Logged ε α).result = r := rfl

instance : LawfulMonad (Logged ε) :=
  LawfulMonad.mk' (Logged ε)
    (fun ⟨es, r⟩ => by cases r <;> simp [Functor.map, Logged.bind])
    (fun _ _ => rfl)
    (fun ⟨es, r⟩ f g => by
      cases r with
      | error e => rfl
      | ok a =>
        change bind (bind ⟨es, .ok a⟩ f) g = bind ⟨es, .ok a⟩ fun a => bind (f a) g
        simp only [bind]
        cases (f a).result <;> simp)

end Logged

end RegAtlas
