import ImportAtlas.Proofs.Memory.History
import ImportAtlas.Proofs.World.Rewritten

/-!
# Publishing a report twice

A file that was published to holds the memory with what the report says. It is read back from the
file as it is, and setting what the report says a second time changes nothing. So a report that was
published can be published again, and nothing in the world changes.
-/

namespace ImportAtlas.Memory

variable {τ : Type} [Wording τ]

theorem publish_again {l : Location} {limit : Int} {r : Report (Json τ)} {w w' : World} {m : Memory}
    (hload : load w l = .ok m)
    (hsave : w.save l ((Projection.exact limit r).into m).text = .ok w') :
    publish l limit r w' = .ok w' := by
  obtain ⟨-, -, hinto⟩ := (learnt_load hload).into limit r
  refine publish_eq_ok_iff.2 ⟨_, (holds_of_save hload hsave).load, ?_⟩
  rw [hinto, World.save_save hsave, hsave]

/-- Publishing a report again after it was published succeeds and leaves the world, and with it the
text of the memory file, as it is. The file holds what it held before with what the report says. -/
theorem publish_twice (l : Location) (limit : Int) (r : Report (Json τ)) (w w' : World)
    (h : publish l limit r w = .ok w') :
    publish l limit r w' = .ok w' ∧ ∃ m, load w l = .ok m ∧
      load w' l = .ok ((Projection.exact limit r).into m) ∧
      w'.readText l = .ok ((Projection.exact limit r).into m).text := by
  obtain ⟨m, hload, hsave⟩ := publish_eq_ok_iff.1 h
  have hholds := holds_of_save hload hsave
  exact ⟨publish_again hload hsave, m, hload, hholds.load, hholds.text⟩

/-- Two notes under one number, parted by a record separator. -/
def notebookText : String :=
  "\x7b\"type\":\"entity\",\"name\":1,\"observations\":\"ab\"\x7d\x1e" ++
    "\x7b\"type\":\"entity\",\"name\":1.0\x7d\r"

/-- A world with those notes in a file. -/
def notebook : World where
  tree := .dir [("p", .dir [("memory.jsonl", .file notebookText.toUTF8)])]
  here := ⟨1, ["p"]⟩
  home := ⟨1, []⟩
  now := ⟨0, 0⟩
  settingsFile := none

/-- The whole number and the double are one name, and the report adds its entities once. -/
theorem notebook_published_twice :
    ∃ w' m, publish ⟨0, ["memory.jsonl"]⟩ 1 (typeReport "B" "a.ts") notebook = .ok w' ∧
      publish ⟨0, ["memory.jsonl"]⟩ 1 (typeReport "B" "a.ts") w' = .ok w' ∧
      load notebook ⟨0, ["memory.jsonl"]⟩ = .ok m ∧ m.entities.length = 1 ∧
      w'.readText ⟨0, ["memory.jsonl"]⟩ =
        .ok ((Projection.exact 1 (typeReport "B" "a.ts")).into m).text := by
  have hnotes : (load notebook ⟨0, ["memory.jsonl"]⟩).toOption.map (·.entities.length) = some 1 := by
    decide +kernel
  cases hload : load notebook ⟨0, ["memory.jsonl"]⟩ with
  | error e =>
    rw [hload] at hnotes
    cases hnotes
  | ok m =>
    rw [hload] at hnotes
    obtain ⟨w', hsave⟩ := World.exists_save_of_find (w := notebook) (l := ⟨0, ["memory.jsonl"]⟩)
      (by decide) rfl ((Projection.exact 1 (typeReport "B" "a.ts")).into m).text
    have hpublish := publish_eq_ok_iff.2 ⟨m, hload, hsave⟩
    obtain ⟨hagain, m', hload', -, hread⟩ := publish_twice _ _ _ _ _ hpublish
    cases hload.symm.trans hload'
    exact ⟨w', m, hpublish, hagain, rfl, Option.some.inj hnotes, hread⟩

end ImportAtlas.Memory
