import SweepReport.Fallible

/-! What the program notes while it works. A noted computation is a result together with the
events on the way to it, and the events have no say in the result. -/
namespace SweepReport

inductive Level where
  | error
  | warn
  | info
  | debug
  | trace
  deriving DecidableEq, Repr

namespace Level

def rank : Level → Nat
  | error => 1
  | warn => 2
  | info => 3
  | debug => 4
  | trace => 5

def name : Level → String
  | error => "ERROR"
  | warn => "WARN"
  | info => "INFO"
  | debug => "DEBUG"
  | trace => "TRACE"

end Level

/-- The parts of the program that note events. -/
inductive Source where
  | command
  | analysis
  | results
  | trend
  | figure
  | samples
  | plotData
  | process
  deriving DecidableEq, Repr

def Source.name : Source → String
  | .command => "batched_analysis_report"
  | .analysis => "batched_analysis"
  | .results => "batched_analysis::index"
  | .trend => "batched_analysis::fit"
  | .figure => "batched_analysis::render"
  | .samples => "criterion_raw::result"
  | .plotData => "common::plot"
  | .process => "common::util"

structure Event where
  level : Level
  source : Source
  message : String
  deriving DecidableEq, Repr

def isTerminalControl (c : Char) : Bool :=
  ['\x07', '\x08', '\x0c', '\x1b', '\x7f'].contains c || ('\u0080' ≤ c && c ≤ '\u009f')

/-- Such a control by its code, in two digits below the second half of the table. -/
def journalChar (c : Char) : List Char :=
  if !isTerminalControl c then [c]
  else if c.toNat < 0x80 then
    ['\\', 'x', Nat.digitChar (c.toNat / 16), Nat.digitChar (c.toNat % 16)]
  else ['\\', 'u', '\x7b'] ++ Nat.toDigits 16 c.toNat ++ ['\x7d']

def Event.shown (e : Event) : String := String.ofList (e.message.toList.flatMap journalChar)

structure Noted (ε α : Type) where
  result : Except ε α
  events : List Event

namespace Noted
variable {ε δ α β : Type}

def ofExcept (r : Except ε α) : Noted ε α := ⟨r, []⟩

def note (level : Level) (source : Source) (message : String) : Noted ε Unit :=
  ⟨.ok (), [⟨level, source, message⟩]⟩

def tell (events : List Event) : Noted ε Unit := ⟨.ok (), events⟩

protected def bind (x : Noted ε α) (f : α → Noted ε β) : Noted ε β :=
  match x.result with
  | .error e => ⟨.error e, x.events⟩
  | .ok a => ⟨(f a).result, x.events ++ (f a).events⟩

instance : Monad (Noted ε) where
  pure a := ⟨.ok a, []⟩
  bind := Noted.bind

def mapError (f : ε → δ) (x : Noted ε α) : Noted δ α := ⟨x.result.mapError f, x.events⟩

@[simp] theorem result_ofExcept (r : Except ε α) : (ofExcept r).result = r := rfl

@[simp] theorem result_note (l : Level) (s : Source) (m : String) :
    (note l s m : Noted ε Unit).result = .ok () := rfl

@[simp] theorem result_tell (es : List Event) : (tell es : Noted ε Unit).result = .ok () := rfl

@[simp] theorem result_pure (a : α) : (pure a : Noted ε α).result = .ok a := rfl

@[simp] theorem result_mapError (f : ε → δ) (x : Noted ε α) :
    (x.mapError f).result = x.result.mapError f := rfl

/-- Leaving the events out commutes with doing one thing after another. -/
@[simp] theorem result_bind (x : Noted ε α) (f : α → Noted ε β) :
    (x >>= f).result = x.result.bind fun a => (f a).result := by
  change (Noted.bind x f).result = _
  unfold Noted.bind
  cases h : x.result <;> rfl

end Noted
end SweepReport
