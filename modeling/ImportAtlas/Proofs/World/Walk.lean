import ImportAtlas.Proofs.World.Written
import Mathlib.Data.List.Sort
import Mathlib.Data.String.Basic

/-!
# Walking through a file tree

Where a path leads is said by its text alone; the tree only decides whether it leads there. No
directory of a well-formed tree lists the way back up, so below a directory that a path leads to,
everything is found under the path with the names below it. A path leads to a directory in another
tree too, if that tree has the directory and every other directory that the path leaves again by
`..`.
-/

namespace ImportAtlas.FileTree

/-- The bytes of the file in a place. -/
def file? (t : FileTree) (place : List String) : Option ByteArray :=
  match t.get? place with
  | some (file content) => some content
  | _ => none

theorem file?_eq_some {t : FileTree} {place : List String} {content : ByteArray} :
    t.file? place = some content ↔ t.get? place = some (file content) := by
  unfold file?
  split
  · simp_all
  · next h =>
    refine iff_of_false nofun fun hfile => ?_
    exact h content hfile

/-! ## Where a path leads -/

/-- The place that a path leads to, if it leads anywhere. Places stand innermost name first. -/
def lead : List String → List String → List String
  | here, [] => here
  | here, name :: path => if name = ".." then lead here.tail path else lead (name :: here) path

theorem lead_append (here path rest : List String) :
    lead here (path ++ rest) = lead (lead here path) rest := by
  induction path generalizing here with
  | nil => rfl
  | cons name path ih =>
    rw [List.cons_append, lead, lead]
    split
    · exact ih here.tail
    · exact ih (name :: here)

theorem follow_eq_lead {top : FileTree} {here path place : List String}
    (h : follow top here path = .ok place) : place = lead here path := by
  induction path generalizing here with
  | nil => cases h; rfl
  | cons name path ih =>
    unfold lead
    obtain ⟨entries, -, ⟨hup, hout⟩ | ⟨hup, -, hin⟩ | ⟨hup, -, rfl, rfl⟩⟩ :=
      follow_cons_eq_ok_iff.1 h
    · rw [if_pos hup]
      exact ih hout
    · rw [if_neg hup]
      exact ih hin
    · rw [if_neg hup]
      rfl

theorem follow_append {top u : FileTree} {here place : List String} {path rest last : List String}
    (h : follow top here path = .ok place) (hu : top.get? place.reverse = some u)
    (hrest : follow top place rest = .ok last) : follow top here (path ++ rest) = .ok last := by
  induction path generalizing here with
  | nil => cases h; exact hrest
  | cons name path ih =>
    obtain ⟨entries, hdir, hstep⟩ := follow_cons_eq_ok_iff.1 h
    refine follow_cons_eq_ok_iff.2 ⟨entries, hdir, ?_⟩
    rcases hstep with ⟨hup, hout⟩ | ⟨hup, hsome, hin⟩ | ⟨-, hnone, -, rfl⟩
    · exact .inl ⟨hup, ih hout⟩
    · exact .inr (.inl ⟨hup, hsome, ih hin⟩)
    · -- the path ends in a name that is not there, so nothing is found in its place
      rw [List.reverse_cons, get?_concat hdir, hnone] at hu
      cases hu

/-- Names that lead down from a place are followed. -/
theorem follow_down {top u : FileTree} {here path : List String} (up : ".." ∉ path)
    (hu : top.get? (here.reverse ++ path) = some u) :
    follow top here path = .ok (path.reverse ++ here) := by
  induction path generalizing here with
  | nil => rfl
  | cons name path ih =>
    obtain ⟨hname, hpath⟩ := List.ne_and_not_mem_of_not_mem_cons up
    have hnext : top.get? ((name :: here).reverse ++ path) = some u := by
      rw [List.reverse_cons, List.append_assoc]
      exact hu
    have hin := ih hpath hnext
    rw [get?_append] at hu
    obtain ⟨v, hv, hbelow⟩ := Option.bind_eq_some_iff.1 hu
    cases v with
    | file content => cases hbelow
    | dir entries =>
      obtain ⟨x, hx, -⟩ := Option.bind_eq_some_iff.1 hbelow
      refine follow_cons_eq_ok_iff.2 ⟨entries, hv, .inr (.inl ⟨Ne.symm hname, ?_, ?_⟩)⟩
      · exact Option.isSome_of_mem hx
      · rw [hin, List.reverse_cons, List.append_assoc]
        rfl

theorem locate_eq_ok_iff {top : FileTree} {path place : List String} :
    top.locate path = .ok place ↔ follow top [] path = .ok place.reverse := by
  unfold locate
  cases follow top [] path with
  | error e => simp [Except.map]
  | ok here => simp [Except.map, List.reverse_eq_iff]

theorem find_eq_ok_iff {top u : FileTree} {path : List String} :
    top.find path = .ok u ↔ ∃ place, top.locate path = .ok place ∧ top.get? place = some u := by
  unfold find
  cases top.locate path with
  | error e => simp [bind, Except.bind]
  | ok place =>
    simp only [bind, Except.bind, Except.ok.injEq, exists_eq_left']
    cases top.get? place with
    | none => simp [throw, throwThe, MonadExceptOf.throw]
    | some t => simp [pure, Except.pure]

/-- Below a place that a path leads to, everything is found under the path with the names below
it. -/
theorem locate_below {top v : FileTree} (h : top.WellFormed) {path place below : List String}
    (hplace : top.locate path = .ok place) (hv : top.get? (place ++ below) = some v) :
    top.locate (path ++ below) = .ok (place ++ below) := by
  obtain ⟨u, hu, hbelow⟩ := Option.bind_eq_some_iff.1 (get?_append .. ▸ hv)
  have hup : ".." ∉ below := (h.get? hu).ne_up hbelow
  rw [← List.reverse_reverse place] at hu hv
  rw [locate_eq_ok_iff, List.reverse_append]
  exact follow_append (locate_eq_ok_iff.1 hplace) hu (follow_down hup hv)

/-! ## Two trees -/

/-- A path leads to a directory. -/
def HasDir (top : FileTree) (path : List String) : Prop := ∃ entries, top.find path = .ok (dir entries)

instance (top : FileTree) (path : List String) : Decidable (top.HasDir path) :=
  match h : top.find path with
  | .ok (dir entries) => isTrue ⟨entries, h⟩
  | .ok (file _) | .error _ => isFalse fun ⟨_, hdir⟩ => by rw [h] at hdir; cases hdir

theorem follow_into {top : FileTree} {here path place : List String} {name : String}
    (hup : name ≠ "..") {entries : List (String × FileTree)}
    (hdir : top.get? (name :: here).reverse = some (dir entries))
    (hin : follow top (name :: here) path = .ok place) :
    follow top here (name :: path) = .ok place := by
  rw [List.reverse_cons] at hdir
  obtain ⟨es, hhere⟩ := dir_of_get?_concat (Option.isSome_of_mem hdir)
  rw [get?_concat hhere] at hdir
  exact follow_cons_eq_ok_iff.2 ⟨es, hhere, .inr (.inl ⟨hup, Option.isSome_of_mem hdir, hin⟩)⟩

/-- A path that leads to a place in one tree leads there in another tree that has a directory in
that place and every directory that the path leaves by `..`. -/
theorem locate_transfer {t₁ t₂ : FileTree} {path place : List String}
    (ways : ∀ q, q ++ [".."] <+: path → t₁.HasDir q → t₂.HasDir q)
    (hplace : t₁.locate path = .ok place) {entries : List (String × FileTree)}
    (hdir : t₂.get? place = some (dir entries)) : t₂.locate path = .ok place := by
  -- `done` is the part of the path that was walked, and it led to `here`
  have walk (rest : List String) : ∀ done here, done ++ rest = path → follow t₁ [] done = .ok here →
      follow t₁ here rest = .ok place.reverse → follow t₂ here rest = .ok place.reverse := by
    induction rest with
    | nil => exact fun _ _ _ _ h => h
    | cons name rest ih =>
      intro done here hpath hdone hrest
      have hpath' : (done ++ [name]) ++ rest = path := by simpa using hpath
      obtain ⟨es, hhere, hstep⟩ := follow_cons_eq_ok_iff.1 hrest
      rcases hstep with ⟨rfl, hout⟩ | ⟨hup, hsome, hin⟩ | ⟨hup, -, rfl, hlast⟩
      · have hnext : follow t₁ [] (done ++ [".."]) = .ok here.tail :=
          follow_append hdone hhere (follow_cons_eq_ok_iff.2 ⟨es, hhere, .inl ⟨rfl, rfl⟩⟩)
        have hdone' : t₁.locate done = .ok here.reverse :=
          locate_eq_ok_iff.2 (by rw [List.reverse_reverse]; exact hdone)
        obtain ⟨es₂, hes₂⟩ :=
          ways done ⟨rest, hpath'⟩ ⟨es, find_eq_ok_iff.2 ⟨here.reverse, hdone', hhere⟩⟩
        obtain ⟨place₂, hdone₂, hhere₂⟩ := find_eq_ok_iff.1 hes₂
        have hsame : place₂.reverse = here :=
          (follow_eq_lead (locate_eq_ok_iff.1 hdone₂)).trans (follow_eq_lead hdone).symm
        rw [List.reverse_eq_iff.1 hsame] at hhere₂
        exact follow_cons_eq_ok_iff.2 ⟨es₂, hhere₂, .inl ⟨rfl, ih _ _ hpath' hnext hout⟩⟩
      · have hnext : follow t₁ [] (done ++ [name]) = .ok (name :: here) :=
          follow_append hdone hhere
            (follow_cons_eq_ok_iff.2 ⟨es, hhere, .inr (.inl ⟨hup, hsome, rfl⟩)⟩)
        have hin₂ := ih _ _ hpath' hnext hin
        -- the other tree has a directory behind the name: the last one, or one on the way
        have hbehind : ∃ es₂, t₂.get? (name :: here).reverse = some (dir es₂) := by
          cases rest with
          | nil =>
            have hlast : name :: here = place.reverse := Except.ok.inj hin
            exact ⟨entries, by rw [hlast, List.reverse_reverse]; exact hdir⟩
          | cons n rest =>
            obtain ⟨es₂, hes₂, -⟩ := follow_cons_eq_ok_iff.1 hin₂
            exact ⟨es₂, hes₂⟩
        obtain ⟨es₂, hes₂⟩ := hbehind
        exact follow_into hup hes₂ hin₂
      · rw [hlast]
        have hdir' : t₂.get? (name :: here).reverse = some (dir entries) := by
          rw [← hlast, List.reverse_reverse]; exact hdir
        exact follow_into hup hdir' rfl
  exact locate_eq_ok_iff.2 (walk path [] [] rfl rfl (locate_eq_ok_iff.1 hplace))

end ImportAtlas.FileTree

namespace ImportAtlas.World

theorem path_eq_of_here {w₁ w₂ : World} (h : w₁.here = w₂.here) (l : Location) :
    w₁.path l = w₂.path l := by
  rw [path, path, h]

end ImportAtlas.World
