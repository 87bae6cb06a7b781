import ImportAtlas.Proofs.Memory.History

/-!
# Lines that are passed over and lines that halt

A report is published unless some line of the memory file halts; then nothing is written, and the
first such line is to blame. Where no line halts, the lines that yield nothing are passed over, and
every item that the report does not speak of is kept.
-/

namespace ImportAtlas.Memory

variable {τ : Type} [Wording τ]

/-- Nothing is published to a file that cannot be read as a memory. -/
theorem publish_of_error {l : Location} {w : World} {text : String} {f : Fault}
    (hread : w.readText l = .ok text) (h : ofText text = .error f) (limit : Int)
    (r : Report (Json τ)) : publish l limit r w = .error (.fault f) := by
  obtain ⟨content, hfind, -⟩ := World.readText_eq_ok_iff.1 hread
  have hhas : w.has l = true := by
    rw [World.has, hfind]
  have hload : load w l = .error (.fault f) := by
    rw [load, if_pos hhas, hread]
    simp only [h]
  rw [publish, hload]
  rfl

/-- A report is published unless some line of the file halts, and otherwise the first line that does
is to blame. Where no line halts, all items of the old lines are kept whose keys the report does not
have, each as the last of the lines has it. -/
theorem published_unless_halted (l : Location) (limit : Int) (r : Report (Json τ)) (w : World)
    (text : String) (named : l.parts ≠ []) (initial : w.readText l = .ok text) :
    let lines := Text.boundaryLines text.toList
    let p := Projection.exact limit r
    ((∃ w', publish l limit r w = .ok w') ↔ ∀ line ∈ lines, ∀ f, ¬ Halts line f) ∧
    (∀ e, publish l limit r w = .error e ↔ ∃ f, HaltsAmong lines f ∧ e = .fault f) ∧
    ∀ remarks, List.Forall₂ Yields lines remarks → ∃ w' m, publish l limit r w = .ok w' ∧
      load w' l = .ok m ∧ w'.readText l = .ok m.text ∧
      Recalls Entity.nameValue (remarks.filterMap Remark.entity?) [p.allEntities] m.entities ∧
      Recalls Relation.endValues (remarks.filterMap Remark.relation?) [p.relations] m.relations ∧
      (∀ e, lastUnder Entity.nameValue e.nameValue (remarks.filterMap Remark.entity?) = some e →
        e.nameValue ∉ p.allEntities.map Entity.nameValue → e ∈ m.entities) ∧
      ∀ r, lastUnder Relation.endValues r.endValues (remarks.filterMap Remark.relation?) = some r →
        r.endValues ∉ p.relations.map Relation.endValues → r ∈ m.relations := by
  intro lines p
  have hhalted {f : Fault} (h : HaltsAmong lines f) : publish l limit r w = .error (.fault f) :=
    publish_of_error initial (ofText_of_halts h) limit r
  have hpublished {remarks : List Remark} (h : List.Forall₂ Yields lines remarks) :
      ∃ w', publish l limit r w = .ok w' ∧ Holds w' l (ofRemarks (told limit remarks [r])) := by
    obtain ⟨w', hpublish, hholds⟩ :=
      exists_publish named initial (load_of_readText initial (ofText_of_yields h)) limit r
    exact ⟨w', hpublish, after_ofRemarks remarks [r] ▸ hholds⟩
  refine ⟨⟨?_, ?_⟩, fun e => ⟨?_, ?_⟩, ?_⟩
  · rintro ⟨w', hpublish⟩ line hline f hhalts
    rcases yields_all_or_halts lines with ⟨remarks, hyields⟩ | ⟨f', hfirst⟩
    · exact not_halts_of_yields_all hyields line hline f hhalts
    · rw [hhalted hfirst] at hpublish
      cases hpublish
  · intro hnone
    rcases yields_all_or_halts lines with ⟨remarks, hyields⟩ | ⟨f, hfirst⟩
    · obtain ⟨w', hpublish, -⟩ := hpublished hyields
      exact ⟨w', hpublish⟩
    · obtain ⟨line, hmem, hhalts⟩ := exists_halts_of_haltsAmong hfirst
      exact absurd hhalts (hnone line hmem f)
  · intro hpublish
    rcases yields_all_or_halts lines with ⟨remarks, hyields⟩ | ⟨f, hfirst⟩
    · obtain ⟨w', hok, -⟩ := hpublished hyields
      rw [hok] at hpublish
      cases hpublish
    · rw [hhalted hfirst] at hpublish
      cases hpublish
      exact ⟨f, hfirst, rfl⟩
  · rintro ⟨f, hfirst, rfl⟩
    exact hhalted hfirst
  · intro remarks hyields
    obtain ⟨w', hpublish, hholds⟩ := hpublished hyields
    obtain ⟨hentities, hrelations⟩ := recalls_told (forall_stored hyields) limit [r]
    refine ⟨w', _, hpublish, hholds.load, hholds.text, hentities, hrelations, ?_, ?_⟩
    · intro e hlast hsilent
      exact hentities.mem_of_silent hlast (List.forall_mem_singleton.2 hsilent)
    · intro rel hlast hsilent
      exact hrelations.mem_of_silent hlast (List.forall_mem_singleton.2 hsilent)

/-- The file of the diary can be published to: the stray lines are passed over, the note on the type
that the report speaks of is replaced, and what it does not speak of is kept, also the notes whose
names are halves of a pair. -/
theorem diary_published :
    ∃ w' m, publish ⟨0, ["memory.jsonl"]⟩ 1 (typeReport "A" "c.ts") diary = .ok w' ∧
      w'.readText ⟨0, ["memory.jsonl"]⟩ = .ok (Memory.text m) ∧
      ⟨.str "Kept", .null, [.str "a\nb"]⟩ ∈ m.entities ∧
      ⟨.str ⟨[0xd800]⟩, .str "note", []⟩ ∈ m.entities ∧
      ⟨.str ⟨[0xd801]⟩, .str "note", []⟩ ∈ m.entities ∧
      ⟨.str "File_a.ts", .str "File_b.ts", .str "imports", []⟩ ∈ m.relations ∧
      m.entities.length = 5 := by
  obtain ⟨-, -, hkept⟩ := published_unless_halted ⟨0, ["memory.jsonl"]⟩ 1 (typeReport "A" "c.ts")
    diary diaryText (by decide) diary_read
  obtain ⟨w', m, hpublish, -, htext, hentities, -, hes, hrs⟩ := hkept _ diary_lines.2
  refine ⟨w', m, hpublish, htext, hes _ rfl ?_, hes _ rfl ?_, hes _ rfl ?_, hrs _ rfl ?_, ?_⟩
  · decide +kernel
  · decide +kernel
  · decide +kernel
  · decide +kernel
  · have hlength := congrArg List.length hentities.keys
    rw [List.length_map] at hlength
    rw [hlength]
    decide +kernel

/-- A note, and then a line that is a number. -/
def strayNumberText : String := "\x7b\"type\": \"entity\", \"name\": \"Kept\"\x7d\n5\n"

/-- A world with those lines in a file. -/
def strayNumber : World where
  tree := .dir [("p", .dir [("memory.jsonl", .file strayNumberText.toUTF8)])]
  here := ⟨1, ["p"]⟩
  home := ⟨1, []⟩
  now := ⟨0, 0⟩
  settingsFile := none

/-- The number is JSON and no object, so it is not passed over and nothing is published. -/
theorem strayNumber_unpublished :
    strayNumber.readText ⟨0, ["memory.jsonl"]⟩ = .ok strayNumberText ∧
      publish ⟨0, ["memory.jsonl"]⟩ 1 (typeReport "A" "c.ts") strayNumber =
        .error (.fault .noOperation) := by
  have hread : strayNumber.readText ⟨0, ["memory.jsonl"]⟩ = .ok strayNumberText :=
    World.readText_eq_ok_iff.2 ⟨strayNumberText.toUTF8, rfl, FileTree.decode_toUTF8 (by decide)⟩
  have hfault : ((ofText strayNumberText).map fun _ => ()) = .error .noOperation := by
    decide +kernel
  cases hmemory : ofText strayNumberText with
  | ok m =>
    rw [hmemory] at hfault
    cases hfault
  | error f =>
    rw [hmemory] at hfault
    cases hfault
    exact ⟨hread, publish_of_error hread hmemory 1 _⟩

end ImportAtlas.Memory
