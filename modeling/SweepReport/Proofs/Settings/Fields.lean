import SweepReport.Settings.Field

/-! Settings field by field. Each field has a value of its kind, the fields together make the settings,
and giving a field anew changes its value and no other. -/
namespace SweepReport.Settings

inductive Kind where
  | text
  | path
  | count
  | real
  | place
  deriving DecidableEq, Repr

def Kind.Value : Kind → Type
  | text => String
  | path => Path
  | count => UInt64
  | real => Float
  | place => Option Path

def Field.kind : Field → Kind
  | group | runtimeDir | throughputDir | interpreter => .text
  | resultsDir | samplesFile | plotScript | plotDataDir => .path
  | fitDegree => .count
  | curveStep => .real
  | output => .place

def value (s : Settings) : (f : Field) → f.kind.Value
  | .resultsDir => s.resultsDir
  | .group => s.group
  | .runtimeDir => s.runtimeDir
  | .throughputDir => s.throughputDir
  | .samplesFile => s.samplesFile
  | .fitDegree => s.fitDegree
  | .curveStep => s.curveStep
  | .interpreter => s.interpreter
  | .plotScript => s.plotScript
  | .plotDataDir => s.plotDataDir
  | .output => s.output

def set (s : Settings) : (f : Field) → f.kind.Value → Settings
  | .resultsDir, p => { s with resultsDir := p }
  | .group, t => { s with group := t }
  | .runtimeDir, t => { s with runtimeDir := t }
  | .throughputDir, t => { s with throughputDir := t }
  | .samplesFile, p => { s with samplesFile := p }
  | .fitDegree, n => { s with fitDegree := n }
  | .curveStep, x => { s with curveStep := x }
  | .interpreter, t => { s with interpreter := t }
  | .plotScript, p => { s with plotScript := p }
  | .plotDataDir, p => { s with plotDataDir := p }
  | .output, p => { s with output := p }

@[simp] theorem value_set_self (s : Settings) (f : Field) (x : f.kind.Value) :
    (s.set f x).value f = x := by
  cases f <;> rfl

theorem value_set_of_ne (s : Settings) {f g : Field} (h : g ≠ f) (x : f.kind.Value) :
    (s.set f x).value g = s.value g := by
  cases f <;> cases g <;> first | rfl | exact absurd rfl h

theorem eq_of_value_eq {s t : Settings} (h : ∀ f, s.value f = t.value f) : s = t := by
  cases s
  cases t
  rw [Settings.mk.injEq]
  exact ⟨h .resultsDir, h .group, h .runtimeDir, h .throughputDir, h .samplesFile, h .fitDegree,
    h .curveStep, h .interpreter, h .plotScript, h .plotDataDir, h .output⟩

def Values.read? {ν : Type} (n : Values ν) : (k : Kind) → ν → Option k.Value
  | .text, v => n.text? v
  | .path, v => (n.text? v).map .ofText
  | .count, v => n.degree? v
  | .real, v => n.step? v
  | .place, v => (n.optionalText? v).map (·.map .ofText)

/-- A field is given anew by the value that is read as one of its kind. -/
theorem give?_eq_map_set {ν : Type} (n : Values ν) (s : Settings) (f : Field) (v : ν) :
    s.give? n f v = (n.read? f.kind v).map (s.set f) := by
  cases f with
  | resultsDir | samplesFile | plotScript | plotDataDir =>
    simp only [give?, Field.kind, Values.read?]
    cases n.text? v <;> rfl
  | output =>
    simp only [give?, Field.kind, Values.read?]
    cases n.optionalText? v <;> rfl
  | _ => rfl

theorem Field.mem_all (f : Field) : f ∈ all := by cases f <;> decide

theorem Field.name_injective : Function.Injective name := by
  intro f g h
  have hf := ofName?_name f
  rw [h, ofName?_name] at hf
  exact (Option.some.inj hf).symm

theorem Field.ofName?_eq_some_iff {k : String} {f : Field} : ofName? k = some f ↔ k = f.name := by
  constructor
  · intro h
    rw [ofName?] at h
    simpa [eq_comm] using List.find?_some h
  · rintro rfl
    exact ofName?_name f

end SweepReport.Settings
