import SweepReport.Proofs.FileTree.Growth
import SweepReport.ScriptRenderer

/-! What handing a figure to the plot script does, step after step: the data folder is made where it is
absent, the data is written, and the script is started on what was written. A step that fails is the
last. Before the script starts, nothing changes but for the data file and the folders made for it. -/
namespace SweepReport

namespace Command

variable {c : Command}

end Command

namespace ScriptRenderer
variable (r : ScriptRenderer) (f : Figure Float)

def dataFile : Path := r.dataDir / ⟨f.name ++ ".json"⟩

/-- The script, the path of the data, and where the figure is to go if that is said. Paths behind flags
are given by their texts. -/
def command : Command where
  program := r.interpreter
  arguments := [r.script.raw, "--data", (r.dataFile f).raw.lossy] ++
    match r.output with
    | none => []
    | some p => ["--filepath", p.raw.lossy]

variable {r f}

end ScriptRenderer
end SweepReport
