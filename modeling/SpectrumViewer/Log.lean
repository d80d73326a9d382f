set_option autoImplicit false

/-!
Log records. Operations that log return their result together with the records, oldest first;
`value` forgets the records and turns a sequence of such operations into the sequence of their
results.
-/

namespace SpectrumViewer

namespace Log

/-- How important a record is, the most important first. -/
inductive Level where
  | error
  | warn
  | info
  | debug
  | trace
  deriving DecidableEq, Repr

def Level.name : Level → String
  | .error => "ERROR"
  | .warn => "WARN"
  | .info => "INFO"
  | .debug => "DEBUG"
  | .trace => "TRACE"

/-- The place of a level: zero would be silence. -/
def Level.rank : Level → Nat
  | .error => 1
  | .warn => 2
  | .info => 3
  | .debug => 4
  | .trace => 5

/-- Where a record comes from. -/
inductive Target where
  | program
  | settings
  | decoder
  | mailbox
  | input
  | demo
  | waterfall
  | display
  deriving DecidableEq, Repr

def Target.name : Target → String
  | .program => "fft_waterfall"
  | .settings => "fft_waterfall::config"
  | .decoder => "fft_waterfall::frame_decoder"
  | .mailbox => "handoff"
  | .input => "fft_waterfall::serial_stream"
  | .demo => "demo_signal"
  | .waterfall => "waterfall"
  | .display => "fft_waterfall::plot"

structure Record where
  level : Level
  target : Target
  text : String
  deriving DecidableEq, Repr

end Log

/-- A result with what was logged on the way to it. -/
@[ext]
structure Logged (α : Type) where
  value : α
  records : List Log.Record

namespace Logged

variable {α β : Type}

instance : Monad Logged where
  pure a := ⟨a, []⟩
  bind x f := ⟨(f x.value).value, x.records ++ (f x.value).records⟩

def log (level : Log.Level) (target : Log.Target) (text : String) : Logged Unit :=
  ⟨(), [⟨level, target, text⟩]⟩

@[simp] theorem value_pure (a : α) : (pure a : Logged α).value = a := rfl

@[simp] theorem records_pure (a : α) : (pure a : Logged α).records = [] := rfl

@[simp] theorem value_bind (x : Logged α) (f : α → Logged β) :
    (x >>= f).value = (f x.value).value := rfl

@[simp] theorem records_bind (x : Logged α) (f : α → Logged β) :
    (x >>= f).records = x.records ++ (f x.value).records := rfl

@[simp] theorem records_map (f : α → β) (x : Logged α) : (f <$> x).records = x.records :=
  List.append_nil x.records

instance : LawfulMonad Logged := LawfulMonad.mk' Logged
  (fun x => Logged.ext rfl (records_map id x))
  (fun _ _ => rfl)
  (fun x f g => Logged.ext rfl
    (List.append_assoc x.records (f x.value).records (g (f x.value).value).records))

@[simp] theorem value_log (level : Log.Level) (target : Log.Target) (text : String) :
    (log level target text).value = () := rfl

@[simp] theorem value_map (f : α → β) (x : Logged α) : (f <$> x).value = f x.value := rfl

end Logged

end SpectrumViewer
