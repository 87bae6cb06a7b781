import ImportAtlas.Proofs.World.Walk
import ImportAtlas.World.Snapshot

/-!
# Trees stay well-formed

Writing a file and making directories keep a tree well-formed, so every world that is set up from
files is. What is found in a tree is in the list of its files.
-/

namespace ImportAtlas

namespace FileTree

/-! ## Changing a tree -/

theorem WellFormed.put {new t : FileTree} (hnew : new.WellFormed) {path : List String}
    (up : ".." ∉ path) (h : t.WellFormed) : (FileTree.put new path t).WellFormed := by
  induction path generalizing t with
  | nil => exact hnew
  | cons name path ih =>
    obtain ⟨hname, hpath⟩ := List.ne_and_not_mem_of_not_mem_cons up
    cases t with
    | file content => exact h
    | dir entries =>
      refine h.setEntry (Ne.symm hname) (ih hpath ?_)
      cases hlookup : entries.lookup name with
      | none => exact wellFormed_dir_nil
      | some u => exact (wellFormed_dir.1 h).2.2 _ (mem_of_lookup hlookup)

theorem WellFormed.dirsMade {t : FileTree} {here : List String} (path : List String)
    (up : ".." ∉ here) (h : t.WellFormed) : (t.dirsMade here path).WellFormed := by
  have hup {name : String} (hname : name ≠ "..") {place : List String} (hplace : ".." ∉ place) :
      ".." ∉ place ++ [name] := by
    simp [hplace, Ne.symm hname]
  fun_induction FileTree.dirsMade t here path with
  | case1 => exact h
  | case2 t here path ih => exact ih (fun hmem => up (List.dropLast_subset here hmem)) h
  | case3 t here name path hname place entries hget ih => exact ih (hup hname up) h
  | case4 => exact h
  | case5 t here name path hname place hget ih =>
    exact ih (hup hname up) (WellFormed.put wellFormed_dir_nil (hup hname up) h)

theorem WellFormed.makeDirs {t t' : FileTree} {here path : List String} (up : ".." ∉ here)
    (h : t.WellFormed) (hmake : t.makeDirs here path = .ok t') : t'.WellFormed :=
  dirsMade_of_makeDirs hmake ▸ h.dirsMade path up

theorem notMem_up_of_follow {top : FileTree} {here path place : List String} (up : ".." ∉ here)
    (h : follow top here path = .ok place) : ".." ∉ place := by
  induction path generalizing here with
  | nil => cases h; exact up
  | cons name path ih =>
    obtain ⟨entries, -, ⟨-, hout⟩ | ⟨hname, -, hin⟩ | ⟨hname, -, -, rfl⟩⟩ :=
      follow_cons_eq_ok_iff.1 h
    · exact ih (fun hmem => up (List.mem_of_mem_tail hmem)) hout
    · exact ih (List.not_mem_cons_of_ne_of_not_mem (Ne.symm hname) up) hin
    · exact List.not_mem_cons_of_ne_of_not_mem (Ne.symm hname) up

theorem WellFormed.write {t t' : FileTree} {path : List String} {content : ByteArray}
    (h : t.WellFormed) (hwrite : t.write path content = .ok t') : t'.WellFormed := by
  unfold FileTree.write at hwrite
  cases hplace : t.locate path with
  | error e => rw [hplace] at hwrite; cases hwrite
  | ok place =>
    have hup : ".." ∉ place := by
      have := notMem_up_of_follow List.not_mem_nil (locate_eq_ok_iff.1 hplace)
      simpa using this
    rw [hplace] at hwrite
    simp only [bind, Except.bind] at hwrite
    split at hwrite
    · cases hwrite
    · cases hwrite
      exact WellFormed.put (wellFormed_file content) hup h

/-! ## The list of files -/

theorem mem_filesIn {entries : List (String × FileTree)} {name : String} {t : FileTree}
    {place : List String} {content : ByteArray} (hentry : entries.lookup name = some t)
    (h : (place, content) ∈ t.files) : (name :: place, content) ∈ filesIn entries := by
  induction entries with
  | nil => cases hentry
  | cons e rest ih =>
    obtain ⟨n, u⟩ := e
    rw [filesIn, List.mem_append]
    rw [List.lookup_cons] at hentry
    split at hentry
    · next hname =>
      cases hentry
      rw [beq_iff_eq] at hname
      exact .inl (List.mem_map.2 ⟨(place, content), h, by rw [hname]⟩)
    · exact .inr (ih hentry)

theorem mem_files {t : FileTree} {place : List String} {content : ByteArray}
    (h : t.file? place = some content) : (place, content) ∈ t.files := by
  rw [file?_eq_some] at h
  induction place generalizing t with
  | nil =>
    cases h
    simp [files]
  | cons name place ih =>
    obtain ⟨u, hu, hplace⟩ := Option.bind_eq_some_iff.1 h
    cases t with
    | file c => cases hu
    | dir entries => exact mem_filesIn hu (ih hplace)

end FileTree

namespace World

theorem wellFormed_empty {here home : Location} (now : Moment) (hhere : ".." ∉ here.parts)
    (hhome : ".." ∉ home.parts) : (empty here home now).tree.WellFormed :=
  .put FileTree.wellFormed_dir_nil hhome
    (.put FileTree.wellFormed_dir_nil hhere FileTree.wellFormed_dir_nil)

theorem wellFormed_makeDirs {w w' : World} {l : Location} (h : w.tree.WellFormed)
    (hmake : w.makeDirs l = .ok w') : w'.tree.WellFormed := by
  unfold makeDirs at hmake
  cases htree : w.tree.makeDirs [] (w.path l) with
  | error e => rw [htree] at hmake; cases hmake
  | ok t =>
    rw [htree] at hmake
    cases hmake
    exact h.makeDirs List.not_mem_nil htree

theorem wellFormed_orElse {w : World} {r : Except FileError World} (h : w.tree.WellFormed)
    (hr : ∀ w', r = .ok w' → w'.tree.WellFormed) : (w.orElse r).tree.WellFormed := by
  cases r with
  | error e => exact h
  | ok w' => exact hr w' rfl

/-- Putting a file or a directory in place keeps the tree well-formed. -/
theorem wellFormed_put {w : World} (h : w.tree.WellFormed) (path : String) (content : ByteArray) :
    (w.put path content).tree.WellFormed := by
  unfold put
  dsimp only
  split
  · exact wellFormed_orElse h fun w' hw' => wellFormed_makeDirs h hw'
  · have hmade := wellFormed_orElse h fun w' hw' =>
      wellFormed_makeDirs h (l := (Location.ofText path).parent) hw'
    refine wellFormed_orElse hmade fun w' hw' => ?_
    generalize w.orElse (w.makeDirs (Location.ofText path).parent) = v at hmade hw'
    cases hwrite : v.tree.write (v.path (Location.ofText path)) content with
    | error e => rw [hwrite] at hw'; cases hw'
    | ok t =>
      rw [hwrite] at hw'
      cases hw'
      exact hmade.write hwrite

end World

end ImportAtlas
