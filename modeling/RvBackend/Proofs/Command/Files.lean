import Mathlib.Tactic
import RvBackend.Command.Files

/-! # Where paths lead among the files

What is at a place depends on nothing that is done at other places, and where a path leads depends
on the directories alone. So a file that is made or removed changes no other file, and no path to
one.

* `at?_put`, `at?_erase`: what is at a place afterwards.
* `locate_congr`: paths lead to the same spots if the directories are the same.
* `fileAt?_put_of_ne`, `fileAt?_erase_of_ne`: paths lead to the same files afterwards, the one file
  apart. -/

namespace RvBackend.Command.Files

variable {fs fs' : Files} {place : Place} {node : FileNode} {path : String}

/-! ### What is at a place -/

theorem lookup_filter_ne {p : Place} (h : p ≠ place) (nodes : List (Place × FileNode)) :
    (nodes.filter (·.1 != place)).lookup p = nodes.lookup p := by
  induction nodes with
  | nil => rfl
  | cons entry nodes ih =>
    obtain ⟨q, node⟩ := entry
    by_cases hq : q = place
    · have hp : (p == q) = false := by simpa [hq] using h
      rw [List.filter_cons_of_neg (by simpa using hq), List.lookup_cons, hp, ih]
    · rw [List.filter_cons_of_pos (by simpa using hq), List.lookup_cons, List.lookup_cons, ih]

theorem lookup_filter_self (nodes : List (Place × FileNode)) :
    (nodes.filter (·.1 != place)).lookup place = none := by
  rw [List.lookup_eq_none_iff]
  intro entry hentry
  obtain ⟨-, hne⟩ := List.mem_filter.mp hentry
  exact bne_comm.trans hne

theorem at?_of_ne_nil {p : Place} (h : p ≠ []) : fs.at? p = fs.nodes.lookup p := by
  cases p with
  | nil => exact absurd rfl h
  | cons name names => rfl

/-- The working directory is always there. -/
theorem at?_nil (fs : Files) : fs.at? [] = some .directory := rfl

theorem ne_nil_of_at? (h : fs.at? place ≠ some .directory) : place ≠ [] :=
  fun hnil => h (hnil ▸ fs.at?_nil)

theorem at?_erase (hplace : place ≠ []) (p : Place) :
    (fs.erase place).at? p = if p = place then none else fs.at? p := by
  by_cases hnil : p = []
  · subst hnil
    rw [if_neg hplace.symm, at?_nil, at?_nil]
  · rw [at?_of_ne_nil hnil, at?_of_ne_nil hnil, erase]
    split_ifs with hp
    · rw [hp, lookup_filter_self]
    · rw [lookup_filter_ne hp]

theorem at?_put (hplace : place ≠ []) (p : Place) :
    (fs.put place node).at? p = if p = place then some node else fs.at? p := by
  by_cases hnil : p = []
  · subst hnil
    rw [if_neg hplace.symm, at?_nil, at?_nil]
  · have herase : (fs.erase place).at? p = if p = place then none else fs.at? p :=
      at?_erase hplace p
    rw [at?_of_ne_nil hnil] at herase ⊢
    rw [put, List.lookup_append, herase]
    split_ifs with hp
    · rw [hp, Option.none_or, List.lookup_cons, beq_self_eq_true]
    · have hbeq : (p == place) = false := beq_false_of_ne hp
      rw [List.lookup_cons, hbeq, List.lookup_nil, Option.or_none]

/-! ### Where a path leads -/

/-- A path is followed one name at a time, from directory to directory. -/
theorem follow_cons_eq_ok_iff {spot spot' : Spot} {name : String} {names : List String} :
    fs.follow spot (name :: names) = .ok spot' ↔ fs.atSpot? spot = some .directory ∧
      ∃ mid, next spot name = .ok mid ∧ fs.follow mid names = .ok spot' := by
  rw [follow]
  cases fs.atSpot? spot with
  | none => exact iff_of_false nofun nofun
  | some node =>
    cases node with
    | file bytes => exact iff_of_false nofun nofun
    | directory => cases next spot name <;> simp

/-- The same places are directories. -/
def SameDirectories (fs fs' : Files) : Prop :=
  ∀ p, fs'.at? p = some .directory ↔ fs.at? p = some .directory

theorem follow_congr (h : SameDirectories fs fs') {spot spot' : Spot} {names : List String} :
    fs'.follow spot names = .ok spot' ↔ fs.follow spot names = .ok spot' := by
  have hspot : ∀ spot, fs'.atSpot? spot = some .directory ↔ fs.atSpot? spot = some .directory := by
    intro spot
    cases spot with
    | inside p => exact h p
    | outside => exact Iff.rfl
  induction names generalizing spot with
  | nil => exact Iff.rfl
  | cons name names ih =>
    rw [follow_cons_eq_ok_iff, follow_cons_eq_ok_iff, hspot]
    simp only [ih]

theorem locate_eq_ok_iff {spot : Spot} : fs.locate path = .ok spot ↔
    checkPath path = .ok () ∧ fs.follow (startOf path) (namesOf path) = .ok spot := by
  rw [locate]
  cases checkPath path with
  | error fault => exact iff_of_false nofun nofun
  | ok _ => exact (and_iff_right rfl).symm

/-- Where a path leads depends on the directories alone. -/
theorem locate_congr (h : SameDirectories fs fs') {spot : Spot} :
    fs'.locate path = .ok spot ↔ fs.locate path = .ok spot := by
  rw [locate_eq_ok_iff, locate_eq_ok_iff, follow_congr h]

theorem sameDirectories_put {bytes : List UInt8} (h : fs.at? place ≠ some .directory) :
    SameDirectories fs (fs.put place (.file bytes)) := by
  intro p
  rw [at?_put (ne_nil_of_at? h)]
  split_ifs with hp
  · exact iff_of_false nofun fun hdir => h (hp ▸ hdir)
  · exact Iff.rfl

theorem sameDirectories_erase (h : fs.at? place ≠ some .directory) :
    SameDirectories fs (fs.erase place) := by
  intro p
  rw [at?_erase (ne_nil_of_at? h)]
  split_ifs with hp
  · exact iff_of_false nofun fun hdir => h (hp ▸ hdir)
  · exact Iff.rfl

/-- A path of a file that may be written leads to a place without a directory. -/
theorem locate_of_target (h : fs.target path = .ok place) :
    fs.locate path = .ok (.inside place) ∧ fs.at? place ≠ some .directory := by
  unfold target at h
  rw [locate_eq_ok_iff]
  cases hcheck : checkPath path with
  | error fault =>
    rw [hcheck] at h
    cases h
  | ok _ =>
    rw [hcheck] at h
    by_cases hstem : String.ofList (Text.dropTrailingSlashes path.toList) = path
    · cases hfollow : fs.follow (startOf path) (namesOf path) with
      | error fault => simp [hstem, hfollow, bind, Except.bind] at h
      | ok spot =>
        cases spot with
        | outside =>
          simp [hstem, hfollow, bind, Except.bind, throw, throwThe, MonadExceptOf.throw] at h
        | inside q =>
          by_cases hq : fs.at? q = some .directory
          · simp [hstem, hfollow, bind, Except.bind, hq, throw, throwThe,
              MonadExceptOf.throw] at h
          · obtain rfl : q = place := by
              simpa [hstem, hfollow, bind, Except.bind, hq, pure, Except.pure] using h
            exact ⟨⟨rfl, rfl⟩, hq⟩
    · simp only [ne_eq, hstem, not_false_eq_true, if_true, bind, Except.bind] at h
      split at h <;> cases h

/-! ### The file that a path leads to -/

/-- The place of the file that a path leads to. -/
def fileAt? (fs : Files) (path : String) : Option Place :=
  match fs.locate path with
  | .ok (.inside place) =>
    match fs.at? place with
    | some (.file _) => some place
    | _ => none
  | _ => none

/-- The bytes of the file at a place. -/
def bytesAt (fs : Files) (place : Place) : List UInt8 :=
  match fs.at? place with
  | some (.file bytes) => bytes
  | _ => []

theorem fileAt?_eq_some_iff : fs.fileAt? path = some place ↔
    fs.locate path = .ok (.inside place) ∧ ∃ bytes, fs.at? place = some (.file bytes) := by
  constructor
  · intro h
    unfold fileAt? at h
    split at h
    · next q hlocate =>
      split at h
      · next bytes hfile =>
        cases h
        exact ⟨hlocate, bytes, hfile⟩
      · cases h
    · cases h
  · rintro ⟨hlocate, bytes, hfile⟩
    simp only [fileAt?, hlocate, hfile]

theorem bytesAt_of_at? {bytes : List UInt8} (h : fs.at? place = some (.file bytes)) :
    fs.bytesAt place = bytes := by
  rw [bytesAt, h]

theorem bytesAt_congr {p : Place} (h : fs'.at? p = fs.at? p) : fs'.bytesAt p = fs.bytesAt p := by
  rw [bytesAt, bytesAt, h]

section Made

variable {bytes : List UInt8} (h : fs.at? place ≠ some .directory)
include h

/-- A path leads to the file that has been made at a place if it leads to the place. -/
theorem fileAt?_put_self :
    (fs.put place (.file bytes)).fileAt? path = some place ↔
      fs.locate path = .ok (.inside place) := by
  rw [fileAt?_eq_some_iff, locate_congr (sameDirectories_put h), at?_put (ne_nil_of_at? h),
    if_pos rfl]
  exact and_iff_left ⟨bytes, rfl⟩

theorem fileAt?_put_of_ne {p : Place} (hp : p ≠ place) :
    (fs.put place (.file bytes)).fileAt? path = some p ↔ fs.fileAt? path = some p := by
  rw [fileAt?_eq_some_iff, fileAt?_eq_some_iff, locate_congr (sameDirectories_put h),
    at?_put (ne_nil_of_at? h), if_neg hp]

/-- No path leads to a file that has been taken away. -/
theorem fileAt?_erase_self : (fs.erase place).fileAt? path ≠ some place := by
  intro hfile
  obtain ⟨-, bytes, hat⟩ := fileAt?_eq_some_iff.mp hfile
  rw [at?_erase (ne_nil_of_at? h), if_pos rfl] at hat
  cases hat

theorem fileAt?_erase_of_ne {p : Place} (hp : p ≠ place) :
    (fs.erase place).fileAt? path = some p ↔ fs.fileAt? path = some p := by
  rw [fileAt?_eq_some_iff, fileAt?_eq_some_iff, locate_congr (sameDirectories_erase h),
    at?_erase (ne_nil_of_at? h), if_neg hp]

end Made

/-- Removing by a path that leads to a file takes that file away. -/
theorem remove_of_fileAt? (h : fs.fileAt? path = some place) : fs.remove path = fs.erase place := by
  obtain ⟨hlocate, bytes, hfile⟩ := fileAt?_eq_some_iff.mp h
  simp only [remove, hlocate, hfile]

end RvBackend.Command.Files
