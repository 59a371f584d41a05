import SweepReport.Proofs.FileTree.Write
import SweepReport.Proofs.Json.Float
import SweepReport.ScriptRenderer

/-! Plot data gives the figure back. Every part of a figure without infinite numbers is written as a
complete value, and is what the value stands for once it is read. -/
namespace SweepReport
open Numeral

namespace Json

/-- The value is complete, and after a reading it stands for `x`. -/
structure StandsFor {α : Type} (v : Json) (read : Json → Option α) (x : α) : Prop where
  complete : v.Complete
  reads : read v.asRead = some x

theorem standsFor_text (s : String) : (text s).StandsFor asText? s := ⟨.text s, rfl⟩

theorem standsFor_ofFloat {x : Float} (hx : x.isFinite) : (ofFloat x).StandsFor asFloat? x := by
  obtain ⟨n, hn, -, hread⟩ := ofFloat_eq_number hx
  refine ⟨complete_ofFloat hx, ?_⟩
  rw [hn, asRead, asFloat?, hread]

theorem standsFor_point {p : Float × Float} (hp : p.1.isFinite ∧ p.2.isFinite) :
    (arrayOf [ofFloat p.1, ofFloat p.2]).StandsFor asPoint? p := by
  have hx := standsFor_ofFloat hp.1
  have hy := standsFor_ofFloat hp.2
  refine ⟨.array (by simp [hx.complete, hy.complete]), ?_⟩
  rw [asRead_arrayOf]
  simp [arrayOf, asPoint?, hx.reads, hy.reads]

theorem standsFor_list {α : Type} {write : α → Json} {read : Json → Option α} {xs : List α}
    (h : ∀ x ∈ xs, (write x).StandsFor read x) :
    (arrayOf (xs.map write)).StandsFor (fun v => asList? v >>= (·.mapM read)) xs := by
  have hreads : ((xs.map write).map asRead).mapM read = some xs := by
    induction xs with
    | nil => rfl
    | cons x xs ih =>
      obtain ⟨hx, hxs⟩ := List.forall_mem_cons.mp h
      simp only [List.map_cons, List.mapM_cons, hx.reads, ih hxs]
      rfl
  refine ⟨.array (by simpa using fun x hx => (h x hx).complete), ?_⟩
  rw [asRead_arrayOf]
  exact hreads

theorem standsFor_points {ps : List (Float × Float)} (h : ∀ p ∈ ps, p.1.isFinite ∧ p.2.isFinite) :
    (ofPoints ps).StandsFor (fun v => asList? v >>= (·.mapM asPoint?)) ps :=
  standsFor_list fun p hp => standsFor_point (h p hp)

theorem StandsFor.member {α : Type} {v : Json} {read : Json → Option α} {x : α}
    (h : v.StandsFor read x) {name : String} {ms : List (String × Json)}
    (hfind : ms.find? (·.1 = name) = some (name, v)) :
    ((objectOf ms).asRead.member? name >>= read) = some x := by
  have hread : (ms.map fun m => (m.1, m.2.asRead)).find? (·.1 = name) = some (name, v.asRead) := by
    rw [List.find?_map]
    exact congrArg (Option.map fun m => (m.1, m.2.asRead)) hfind
  rw [asRead_objectOf, objectOf, member?, hread]
  exact h.reads

theorem textMember?_objectOf {s name : String} {ms : List (String × Json)}
    (hfind : ms.find? (·.1 = name) = some (name, text s)) :
    (objectOf ms).asRead.textMember? name = some s := (standsFor_text s).member hfind

theorem StandsFor.listMember {α : Type} {v : Json} {read : Json → Option α} {xs : List α}
    (h : v.StandsFor (fun v => asList? v >>= (·.mapM read)) xs) {name : String}
    {ms : List (String × Json)} (hfind : ms.find? (·.1 = name) = some (name, v)) :
    (objectOf ms).asRead.listMember? name read = some xs := by
  have hread := h.member hfind
  rw [← bind_assoc] at hread
  exact hread

end Json

/-- Figures of which no number is infinite or none at all. -/
def Series.IsFinite (s : Series Float) : Prop :=
  (∀ p ∈ s.points, p.1.isFinite ∧ p.2.isFinite) ∧ ∀ p ∈ s.curve, p.1.isFinite ∧ p.2.isFinite

structure Panel.IsFinite (p : Panel Float) : Prop where
  xMax : p.xMax.isFinite
  yMin : p.yMin.isFinite
  yMax : p.yMax.isFinite
  series : ∀ s ∈ p.series, s.IsFinite

def Figure.IsFinite (f : Figure Float) : Prop := ∀ p ∈ f.panels, p.IsFinite

theorem Series.standsFor_toJson {s : Series Float} (hs : s.IsFinite) :
    s.toJson.StandsFor Series.ofJson? s := by
  have hpoints := Json.standsFor_points hs.1
  have hcurve := Json.standsFor_points hs.2
  have hcomplete : s.toJson.Complete :=
    .object (by simp [Json.Complete.text, hpoints.complete, hcurve.complete])
  have hread₁ : s.toJson.asRead.textMember? "label" = some s.label :=
    Json.textMember?_objectOf (by simp)
  have hread₂ : s.toJson.asRead.listMember? "points" Json.asPoint? = some s.points :=
    hpoints.listMember (by simp)
  have hread₃ : s.toJson.asRead.listMember? "curve" Json.asPoint? = some s.curve :=
    hcurve.listMember (by simp)
  exact ⟨hcomplete, by simp [ofJson?, hread₁, hread₂, hread₃]⟩

theorem Panel.standsFor_toJson {p : Panel Float} (hp : p.IsFinite) :
    p.toJson.StandsFor Panel.ofJson? p := by
  have hxMax := Json.standsFor_ofFloat hp.xMax
  have hyMin := Json.standsFor_ofFloat hp.yMin
  have hyMax := Json.standsFor_ofFloat hp.yMax
  have hseries := Json.standsFor_list fun s hs => Series.standsFor_toJson (hp.series s hs)
  have hcomplete : p.toJson.Complete :=
    .object (by simp [Json.Complete.text, hxMax.complete, hyMin.complete, hyMax.complete,
      hseries.complete])
  have hread₁ : p.toJson.asRead.textMember? "title" = some p.title :=
    Json.textMember?_objectOf (by simp)
  have hread₂ : p.toJson.asRead.textMember? "x_label" = some p.xLabel :=
    Json.textMember?_objectOf (by simp)
  have hread₃ : p.toJson.asRead.textMember? "y_label" = some p.yLabel :=
    Json.textMember?_objectOf (by simp)
  have hread₄ : p.toJson.asRead.floatMember? "x_max" = some p.xMax := hxMax.member (by simp)
  have hread₅ : p.toJson.asRead.floatMember? "y_min" = some p.yMin := hyMin.member (by simp)
  have hread₆ : p.toJson.asRead.floatMember? "y_max" = some p.yMax := hyMax.member (by simp)
  have hread₇ : p.toJson.asRead.listMember? "series" Series.ofJson? = some p.series :=
    hseries.listMember (by simp)
  exact ⟨hcomplete,
    by simp [ofJson?, hread₁, hread₂, hread₃, hread₄, hread₅, hread₆, hread₇]⟩

theorem Figure.standsFor_toJson {f : Figure Float} (hf : f.IsFinite) :
    f.toJson.StandsFor Figure.ofJson? f := by
  have hpanels := Json.standsFor_list fun p hp => Panel.standsFor_toJson (hf p hp)
  have hcomplete : f.toJson.Complete :=
    .object (by simp [Json.Complete.text, hpanels.complete])
  have hread₁ : f.toJson.asRead.textMember? "name" = some f.name :=
    Json.textMember?_objectOf (by simp)
  have hread₂ : f.toJson.asRead.listMember? "panels" Panel.ofJson? = some f.panels :=
    hpanels.listMember (by simp)
  exact ⟨hcomplete, by simp [ofJson?, hread₁, hread₂]⟩

/-- The plot data of a figure is one document, which stands for the figure. -/
theorem Figure.ofPlotData?_plotData {f : Figure Float} (hf : f.IsFinite) :
    Figure.ofPlotData? f.plotData = some f := by
  have hvalue := Figure.standsFor_toJson hf
  rw [ofPlotData?, plotData, Json.read_render hvalue.complete]
  exact hvalue.reads

/-- Where the plot data was stored it is read as it was given. -/
theorem readText_storePlotData {text stem : String} {dir path : Path} {t t' : FileTree}
    (h : storePlotData text dir stem t = (t', .ok path)) : t'.readText path = .ok text := by
  unfold storePlotData at h
  split at h
  split at h
  · cases h
  · dsimp only at h
    split at h
    · cases h
    · rename_i hwrite
      cases h
      exact FileTree.readText_write hwrite

/-- A figure without infinite numbers is read back from its plot data, so no two such figures share
theirs, and what is stored for a script is that text. -/
theorem plotData_recovers (f : Figure Float) (hf : f.IsFinite) :
    Figure.ofPlotData? f.plotData = some f ∧
      (∀ g : Figure Float, g.IsFinite → g.plotData = f.plotData → g = f) ∧
      ∀ (dir path : Path) (t t' : FileTree),
        storePlotData f.plotData dir f.name t = (t', .ok path) → t'.readText path = .ok f.plotData := by
  have hread := Figure.ofPlotData?_plotData hf
  refine ⟨hread, fun g hg htext => ?_, fun _ _ _ _ => readText_storePlotData⟩
  have hsame := Figure.ofPlotData?_plotData hg
  rw [htext, hread] at hsame
  exact (Option.some.inj hsame).symm

/-- Quotes, backslashes and control characters in the texts, negative zero, a tenth and the greatest
double among the numbers, and a list without members. -/
theorem plotData_recovers_awkward :
    Figure.ofPlotData?
      (Figure.plotData ⟨"a\"b\\c", [⟨"\n\t\u0001é", "", "x", .ofBits 0x3fb999999999999a,
        .ofBits 0x8000000000000000, .ofBits 0x7fefffffffffffff,
        [⟨"4", [(.ofNat 1, .ofNat 2)], []⟩]⟩]⟩) =
      some ⟨"a\"b\\c", [⟨"\n\t\u0001é", "", "x", .ofBits 0x3fb999999999999a,
        .ofBits 0x8000000000000000, .ofBits 0x7fefffffffffffff,
        [⟨"4", [(.ofNat 1, .ofNat 2)], []⟩]⟩]⟩ := by
  refine (plotData_recovers _ ?_).1
  simp only [Figure.IsFinite, List.forall_mem_singleton]
  refine ⟨by decide +kernel, by decide +kernel, by decide +kernel, ?_⟩
  simp only [List.forall_mem_singleton, Series.IsFinite]
  exact ⟨by decide +kernel, by simp⟩

end SweepReport
