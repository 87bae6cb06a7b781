import ImportAtlas.Json.Access
import ImportAtlas.Report.Basic

/-!
# Reports as documents

`toJson` writes a report as a document and `ofJson` reads one. Reading keeps names, paths and times
as they are, takes counts, lines and numbers as whole numbers, and stops at the first fault in the
order in which the members are read.
-/

namespace ImportAtlas

namespace Import

/-- The members of an import; its file is that of the analysis around it. -/
def toJson (i : Import Json) : Json :=
  .obj [("name", i.name), ("path", i.specifier), ("isRelative", .bool i.isRelative),
    ("line", .int i.line)]

def ofJson (path v : Json) : Except Fault (Import Json) := do
  let name ← v.field "name"
  let specifier ← v.field "path"
  let isRelative ← v.field "isRelative"
  let line ← (← v.field "line").toInt
  return ⟨path, name, specifier, isRelative.counts, line⟩

end Import

namespace Export

def toJson (e : Export Json) : Json := .obj [("name", e.name), ("line", .int e.line)]

def ofJson (path v : Json) : Except Fault (Export Json) := do
  let name ← v.field "name"
  let line ← (← v.field "line").toInt
  return ⟨path, name, line⟩

end Export

namespace FileAnalysis

def toJson (a : FileAnalysis Json) : Json :=
  .obj [("fileName", a.name), ("filePath", a.path), ("category", a.category),
    ("imports", .arr (a.imports.map Import.toJson)), ("exports", .arr (a.exports.map Export.toJson))]

/-- Reads an analysis; missing lists are empty. -/
def ofJson (v : Json) : Except Fault (FileAnalysis Json) := do
  let path ← v.field "filePath"
  let name ← v.field "fileName"
  let category ← v.field "category"
  let imports ← (← (← v.fieldD "imports" (.arr [])).elements).mapM (Import.ofJson path)
  let exports ← (← (← v.fieldD "exports" (.arr [])).elements).mapM (Export.ofJson path)
  return ⟨name, path, category, imports, exports⟩

end FileAnalysis

namespace SourceFile

def toJson (n : SourceFile Json) : Json :=
  .obj [("id", .int n.id), ("name", n.name), ("path", n.path), ("category", n.category),
    ("imports", .int n.imports), ("exports", .int n.exports)]

def ofJson (v : Json) : Except Fault (SourceFile Json) := do
  let id ← (← v.field "id").toInt
  let name ← v.field "name"
  let path ← v.field "path"
  let category ← v.field "category"
  let imports ← (← v.field "imports").toInt
  let exports ← (← v.field "exports").toInt
  return ⟨id, name, path, category, imports, exports⟩

end SourceFile

namespace Edge

def toJson (e : Edge Json) : Json :=
  .obj [("from", .int e.source), ("to", .int e.target), ("importName", e.name),
    ("importPath", e.specifier), ("line", .int e.line)]

def ofJson (v : Json) : Except Fault (Edge Json) := do
  let source ← (← v.field "from").toInt
  let target ← (← v.field "to").toInt
  let name ← v.field "importName"
  let specifier ← v.field "importPath"
  let line ← (← v.field "line").toInt
  return ⟨source, target, name, specifier, line⟩

end Edge

namespace UnusedExport

def toJson (u : UnusedExport Json) : Json :=
  .obj [("file", u.file), ("export", u.name), ("line", .int u.line)]

def ofJson (v : Json) : Except Fault (UnusedExport Json) := do
  let file ← v.field "file"
  let name ← v.field "export"
  let line ← (← v.field "line").toInt
  return ⟨file, name, line⟩

end UnusedExport

namespace ProjectInfo

def toJson (p : ProjectInfo Json) : Json :=
  .obj [("name", p.name), ("root", p.root), ("analyzer", p.analyzer)]

def ofJson (v : Json) : Except Fault (ProjectInfo Json) := do
  let name ← v.field "name"
  let root ← v.field "root"
  let analyzer ← v.field "analyzer"
  return ⟨name, root, analyzer⟩

end ProjectInfo

namespace Summary

def toJson (s : Summary) : Json :=
  .obj [("totalFiles", .int s.totalFiles), ("analyzedFiles", .int s.analyzedFiles),
    ("totalNodes", .int s.totalNodes), ("totalEdges", .int s.totalEdges),
    ("cyclesCount", .int s.cyclesCount), ("unusedExportsCount", .int s.unusedExportsCount)]

def ofJson (v : Json) : Except Fault Summary := do
  let totalFiles ← (← v.field "totalFiles").toInt
  let analyzedFiles ← (← v.field "analyzedFiles").toInt
  let totalNodes ← (← v.field "totalNodes").toInt
  let totalEdges ← (← v.field "totalEdges").toInt
  let cyclesCount ← (← v.field "cyclesCount").toInt
  let unusedExportsCount ← (← v.field "unusedExportsCount").toInt
  return ⟨totalFiles, analyzedFiles, totalNodes, totalEdges, cyclesCount, unusedExportsCount⟩

end Summary

namespace Report

def cycleOfJson (v : Json) : Except Fault (List Int) := do
  (← v.elements).mapM Json.toInt

def toJson (r : Report Json) : Json :=
  .obj [("timestamp", r.timestamp), ("project", r.project.toJson), ("summary", r.summary.toJson),
    ("typeNodes", .arr (r.typeNodes.map FileAnalysis.toJson)),
    ("graph", .obj [("nodes", .arr (r.nodes.map SourceFile.toJson)),
      ("edges", .arr (r.edges.map Edge.toJson))]),
    ("cycles", .arr (r.cycles.map fun c => .arr (c.map .int))),
    ("unusedExports", .arr (r.unusedExports.map UnusedExport.toJson))]

/-- Reads a report. The project, the summary and the graph must be there before anything in them
is read. -/
def ofJson (v : Json) : Except Fault (Report Json) := do
  let project ← v.field "project"
  let summary ← v.field "summary"
  let graph ← v.field "graph"
  let timestamp ← v.field "timestamp"
  let project ← ProjectInfo.ofJson project
  let summary ← Summary.ofJson summary
  let typeNodes ← (← (← v.fieldD "typeNodes" (.arr [])).elements).mapM FileAnalysis.ofJson
  let nodes ← (← (← graph.field "nodes").elements).mapM SourceFile.ofJson
  let edges ← (← (← graph.field "edges").elements).mapM Edge.ofJson
  let cycles ← (← (← v.fieldD "cycles" (.arr [])).elements).mapM cycleOfJson
  let unusedExports ← (← (← v.fieldD "unusedExports" (.arr [])).elements).mapM UnusedExport.ofJson
  return ⟨timestamp, project, summary, typeNodes, nodes, edges, cycles, unusedExports⟩

/-- An assembled report with its texts as document values. -/
def ofTexts (r : Report String) : Report Json := r.map .str

def same (a b : Report Json) : Bool := a.toJson.same b.toJson

end Report

end ImportAtlas
