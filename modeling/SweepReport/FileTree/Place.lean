import SweepReport.Text.OsString

/-! Places in a file tree, by the names that lead there from the top. -/
namespace SweepReport

/-- The number of names stands beside them, so that places of different depth are told apart at
once. -/
structure Place where
  /-- The last first. -/
  names : List OsString
  depth : Nat
  depth_eq : depth = names.length

namespace Place

def ofNames (names : List OsString) : Place := ⟨names, names.length, rfl⟩

def top : Place := ofNames []

def child (p : Place) (name : OsString) : Place := ⟨name :: p.names, p.depth + 1, by simp [p.depth_eq]⟩

/-- One name less; the top is its own parent. -/
def parent (p : Place) : Place := ⟨p.names.tail, p.depth - 1, by simp [p.depth_eq]⟩

theorem eq_of_names {p q : Place} (h : p.names = q.names) : p = q := by
  cases p with | mk a m hm => cases q with | mk b n hn => simp_all

instance : DecidableEq Place := fun p q =>
  if hd : p.depth = q.depth then
    if h : p.names = q.names then isTrue (eq_of_names h) else isFalse fun e => h (e ▸ rfl)
  else isFalse fun e => hd (e ▸ rfl)

def isAbove (p q : Place) : Bool := p.names.isSuffixOf q.names

def nameIn? (folder p : Place) : Option OsString :=
  if p.parent = folder then p.names.head? else none

theorem nameIn?_child (p : Place) (name : OsString) : p.nameIn? (p.child name) = some name := by
  simp [nameIn?, child, parent]

theorem parent_child (p : Place) (name : OsString) : (p.child name).parent = p :=
  eq_of_names rfl

end Place
end SweepReport
