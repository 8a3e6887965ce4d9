import RecordStore.Selection.Selector

namespace RecordStore

inductive Projection where
  | unrestricted
  /-- Only what stands at these paths. -/
  | paths (ps : List String)
deriving DecidableEq, Repr, Inhabited

namespace Projection

def addPath (ps : List String) (p : String) : List String := if ps.contains p then ps else ps ++ [p]

def withPaths : Projection → List String → Projection
  | unrestricted, _ => unrestricted
  | paths ps, extra => paths (extra.foldl addPath ps)

def toDocument? : Projection → Option Document
  | unrestricted => none
  | paths ps => some (Document.ofList (ps.map fun p => (p, .boolean true)))

def apply (p : Projection) (d : Document) : Document :=
  match p with
  | unrestricted => d
  | paths ps => ps.foldl (fun out q => d.copyPath out (Path.ofString q)) []

end Projection

namespace Selector

mutual

/-- The paths of a selection below `parent`. An empty selection stands for its attribute. -/
def leafPaths (parent : String) : Selector → List String
  | all => [parent]
  | nothing => []
  | fields [] => [parent]
  | fields (e :: entries) => entryPaths parent (e :: entries)

def entryPaths (parent : String) : List (String × Selector) → List String
  | [] => []
  | (name, s) :: entries => s.leafPaths (Path.join parent name) ++ entryPaths parent entries

end

def toProjection : Selector → Projection
  | all => .unrestricted
  | nothing => .paths []
  | fields entries => .paths (entryPaths "" entries)

end Selector

end RecordStore
