import RvBackend.Command.World
import RvBackend.Proofs.Command.Files

/-! # What commands rely on in their surroundings

Commands see files only through the actions of a host. A `FileView` says what a state of the
surroundings holds: which file a path leads to, through whatever directories and links there are,
and the bytes of a file. Several paths may lead to one file. `FileView.Lawful` is what is assumed of
the actions, and no more than what is known of opening, reading and removing a file.

* `FileView.Same`: the files are as they were.
* `FileView.Opened`, `FileView.Removed`: what is left of the files when one is opened for writing,
  and when one is removed.
* `World.lawful_view`: the model of the surroundings is lawful. -/

namespace RvBackend.Command

/-- What the states of some surroundings show of the files. Whatever can be opened for writing is a
file, and one that keeps nothing has no bytes. -/
structure FileView (σ : Type) where
  File : Type
  /-- The file that a path leads to. -/
  fileAt? : σ → String → Option File
  bytes : σ → File → List UInt8

namespace FileView

variable {σ : Type} (v : FileView σ)

/-- The bytes of the file that a path leads to. -/
def contentAt? (w : σ) (path : String) : Option (List UInt8) := (v.fileAt? w path).map (v.bytes w)

/-- Paths lead to the same files, and files have the same bytes. -/
structure Same (w w' : σ) : Prop where
  fileAt? : ∀ p, v.fileAt? w' p = v.fileAt? w p
  bytes : ∀ f, v.bytes w' f = v.bytes w f

/-- The file `f` has been opened for writing by a path: it is empty, and new unless the path led to
it before. Whatever leads to other files and is in them is as it was. -/
structure Opened (path : String) (f : v.File) (w w' : σ) : Prop where
  leads : v.fileAt? w' path = some f
  empty : v.bytes w' f = []
  origin : v.fileAt? w path = some f ∨ ∀ p, v.fileAt? w p ≠ some f
  kept : ∀ p, v.fileAt? w p = some f → v.fileAt? w' p = some f
  others : ∀ p g, g ≠ f → (v.fileAt? w' p = some g ↔ v.fileAt? w p = some g)
  bytes : ∀ g, g ≠ f → v.bytes w' g = v.bytes w g

/-- The file `f` has been removed by a path that led to it: the path leads nowhere, and so may other
paths that led to the file, while some may still lead to it. Or it could not be removed, and all is
as it was. Whatever leads to other files is as it was, and no file has changed. -/
structure Removed (path : String) (f : v.File) (w w' : σ) : Prop where
  gone : v.fileAt? w' path = none ∨ v.Same w w'
  old : ∀ p, v.fileAt? w' p = some f → v.fileAt? w p = some f
  others : ∀ p g, g ≠ f → (v.fileAt? w' p = some g ↔ v.fileAt? w p = some g)
  bytes : ∀ p g, v.fileAt? w' p = some g → v.bytes w' g = v.bytes w g

/-- **What is assumed of the surroundings.** Reading and printing change no file. A file that cannot
be opened for writing is neither made nor emptied; one that can is made or emptied, and nothing else
is. Removing takes away what a path leads to, or fails and changes nothing. -/
structure Lawful [Host (StateM σ)] : Prop where
  readFile : ∀ path w, v.Same w ((Host.readFile path : StateM σ _).run w).2
  print : ∀ text w, v.Same w ((Host.print text : StateM σ Unit).run w).2
  printError : ∀ text w, v.Same w ((Host.printError text : StateM σ Unit).run w).2
  createFile_error : ∀ path w e w',
    (Host.createFile path : StateM σ _).run w = (.error e, w') → v.Same w w'
  createFile_ok : ∀ path w w', (Host.createFile path : StateM σ _).run w = (.ok (), w') →
    ∃ f, v.Opened path f w w'
  removeFile : ∀ path w f, v.fileAt? w path = some f →
    v.Removed path f w ((Host.removeFile path : StateM σ Unit).run w).2

variable {v} {w₁ w₂ w₃ w₄ : σ} {path : String} {f : v.File}

theorem Same.refl (w : σ) : v.Same w w := ⟨fun _ => rfl, fun _ => rfl⟩

theorem Same.trans (h : v.Same w₁ w₂) (h' : v.Same w₂ w₃) : v.Same w₁ w₃ where
  fileAt? p := (h'.fileAt? p).trans (h.fileAt? p)
  bytes f := (h'.bytes f).trans (h.bytes f)

theorem Opened.between (h : v.Opened path f w₂ w₃) (hbefore : v.Same w₁ w₂)
    (hafter : v.Same w₃ w₄) : v.Opened path f w₁ w₄ where
  leads := (hafter.fileAt? path).trans h.leads
  empty := (hafter.bytes f).trans h.empty
  origin := by simpa only [← hbefore.fileAt?] using h.origin
  kept p hp := by
    rw [hafter.fileAt?]
    exact h.kept p ((hbefore.fileAt? p).trans hp)
  others p g hg := by rw [hafter.fileAt?, ← hbefore.fileAt?, h.others p g hg]
  bytes g hg := by rw [hafter.bytes, h.bytes g hg, hbefore.bytes]

/-! ### A file that is opened and removed again -/

/-- What is left of the files if the one that a path leads to is opened for writing and then
removed, with nothing written to it. -/
structure Spent (v : FileView σ) (path : String) (f : v.File) (w w' : σ) : Prop where
  /-- The path led to the file, or to none, and then the file is new. -/
  origin : v.fileAt? w path = some f ∨ v.fileAt? w path = none ∧ ∀ p, v.fileAt? w p ≠ some f
  /-- Paths lead to other files as before, and these have the same bytes. -/
  others : ∀ p g, g ≠ f → (v.fileAt? w' p = some g ↔ v.fileAt? w p = some g)
  bytes : ∀ p g, g ≠ f → v.fileAt? w' p = some g → v.bytes w' g = v.bytes w g
  /-- Whatever path still leads to the file, the file is empty. -/
  empty : ∀ p, v.fileAt? w' p = some f → v.bytes w' f = []
  /-- The path leads nowhere, or the file could not be removed. -/
  gone : v.fileAt? w' path = none ∨
    v.fileAt? w' path = some f ∧ ∀ p, v.fileAt? w p = some f → v.fileAt? w' p = some f

theorem Opened.spent (h : v.Opened path f w₁ w₂) (h' : v.Removed path f w₂ w₃) :
    v.Spent path f w₁ w₃ where
  origin := by
    refine h.origin.imp_right fun hnew => ⟨?_, hnew⟩
    -- had the path led to another file, it would still lead there
    cases hpath : v.fileAt? w₁ path with
    | none => rfl
    | some g =>
      have hg : g ≠ f := fun heq => hnew path (heq ▸ hpath)
      cases ((h.others path g hg).mpr hpath).symm.trans h.leads
      exact absurd rfl hg
  others p g hg := (h'.others p g hg).trans (h.others p g hg)
  bytes p g hg hp := (h'.bytes p g hp).trans (h.bytes g hg)
  empty p hp := (h'.bytes p f hp).trans h.empty
  gone := h'.gone.imp_right fun hsame =>
    ⟨(hsame.fileAt? path).trans h.leads, fun p hp => (hsame.fileAt? p).trans (h.kept p hp)⟩

/-- **When nothing is lost.** All paths show the same as before exactly if they lead to the same
files and the one that was opened, if it is not new, was empty. -/
theorem Spent.contentAt?_iff (h : v.Spent path f w₁ w₂) :
    (∀ p, v.contentAt? w₂ p = v.contentAt? w₁ p) ↔
      (∀ p, v.fileAt? w₂ p = v.fileAt? w₁ p) ∧
        (v.fileAt? w₁ path = some f → v.bytes w₁ f = []) := by
  constructor
  · intro hall
    have hsame : ∀ p, v.fileAt? w₂ p = v.fileAt? w₁ p := by
      intro p
      have hp := hall p
      unfold FileView.contentAt? at hp
      cases hbefore : v.fileAt? w₁ p with
      | none =>
        rw [hbefore] at hp
        exact Option.map_eq_none_iff.mp hp
      | some g =>
        obtain ⟨g', hafter, -⟩ := Option.map_eq_some_iff.mp (hp.trans (by rw [hbefore]; rfl))
        rw [hafter]
        by_cases hg : g' = f
        · by_contra hne
          have hother : g ≠ f := fun heq => hne (by rw [hg, heq])
          exact hne (hafter.symm.trans ((h.others p g hother).mpr hbefore))
        · exact ((h.others p g' hg).mp hafter).symm.trans hbefore
    refine ⟨hsame, fun hpath => ?_⟩
    have hafter := (hsame path).trans hpath
    have hcontent := hall path
    rw [FileView.contentAt?, FileView.contentAt?, hafter, hpath] at hcontent
    exact (Option.some.inj hcontent).symm.trans (h.empty path hafter)
  · rintro ⟨hsame, hempty⟩ p
    rw [FileView.contentAt?, FileView.contentAt?, hsame]
    cases hbefore : v.fileAt? w₁ p with
    | none => rfl
    | some g =>
      have hafter := (hsame p).trans hbefore
      rw [Option.map_some, Option.map_some]
      by_cases hg : g = f
      · subst hg
        obtain hpath | ⟨-, hnew⟩ := h.origin
        · rw [hempty hpath, h.empty p hafter]
        · exact absurd hbefore (hnew p)
      · rw [h.bytes p g hg hafter]

end FileView

/-! ### The model of the surroundings -/

namespace World

variable {w w' : World} {path : String} {bytes : List UInt8} {place : Place}

/-- Files are known by their places. -/
def view : FileView World where
  File := Place
  fileAt? w path := w.files.fileAt? path
  bytes w place := w.files.bytesAt place

theorem same_of_files (h : w'.files = w.files) : view.Same w w' where
  fileAt? p := congrArg (·.fileAt? p) h
  bytes f := congrArg (·.bytesAt f) h

theorem update_write?_of_ok (h : w.files.target path = .ok place) :
    update (·.write? path bytes) w =
      (.ok (), { w with files := w.files.put place (.file bytes) }) := by
  have hwrite : w.files.write? path bytes = .ok (w.files.put place (.file bytes)) := by
    rw [Files.write?, h]
  simp only [update, modifyGet, MonadStateOf.modifyGet, StateT.modifyGet, hwrite]
  rfl

theorem update_write?_of_error {fault : PathFault} (h : w.files.target path = .error fault) :
    update (·.write? path bytes) w = (.error ⟨.openFile, path, fault⟩, w) := by
  have hwrite : w.files.write? path bytes = .error ⟨.openFile, path, fault⟩ := by
    rw [Files.write?, h]
  simp only [update, modifyGet, MonadStateOf.modifyGet, StateT.modifyGet, hwrite]
  rfl

theorem opened_of_target (h : w.files.target path = .ok place) :
    view.Opened path place w { w with files := w.files.put place (.file []) } := by
  obtain ⟨hlocate, hplace⟩ := Files.locate_of_target h
  have hat : ∀ p, (w.files.put place (.file [])).at? p =
      if p = place then some (.file []) else w.files.at? p :=
    Files.at?_put (Files.ne_nil_of_at? hplace)
  refine ⟨(Files.fileAt?_put_self hplace).mpr hlocate, ?_, ?_, fun p hp => ?_,
    fun p g hg => Files.fileAt?_put_of_ne hplace hg, fun g hg => ?_⟩
  · exact Files.bytesAt_of_at? (by rw [hat, if_pos rfl])
  · cases hnode : w.files.at? place with
    | none =>
      refine .inr fun p hp => ?_
      obtain ⟨-, bytes, hfile⟩ := Files.fileAt?_eq_some_iff.mp hp
      cases hnode.symm.trans hfile
    | some node =>
      cases node with
      | file bytes => exact .inl (Files.fileAt?_eq_some_iff.mpr ⟨hlocate, bytes, hnode⟩)
      | directory => exact absurd hnode hplace
  · exact (Files.fileAt?_put_self hplace).mpr (Files.fileAt?_eq_some_iff.mp hp).1
  · exact Files.bytesAt_congr ((hat g).trans (if_neg hg))

theorem removed_of_fileAt? (h : w.files.fileAt? path = some place) :
    view.Removed path place w { w with files := w.files.remove path } := by
  obtain ⟨-, bytes, hfile⟩ := Files.fileAt?_eq_some_iff.mp h
  have hplace : w.files.at? place ≠ some .directory := by
    rw [hfile]
    nofun
  rw [Files.remove_of_fileAt? h]
  refine ⟨.inl ?_, fun p hp => absurd hp (Files.fileAt?_erase_self hplace),
    fun p g hg => Files.fileAt?_erase_of_ne hplace hg, fun p g hp => ?_⟩
  · -- the path leads nowhere, since no other file was at its place
    cases hpath : view.fileAt? { w with files := w.files.erase place } path with
    | none => rfl
    | some g =>
      have hg : g ≠ place := fun heq => Files.fileAt?_erase_self hplace (heq ▸ hpath)
      cases h.symm.trans ((Files.fileAt?_erase_of_ne hplace hg).mp hpath)
      exact absurd rfl hg
  · have hg : g ≠ place := fun heq => Files.fileAt?_erase_self hplace (heq ▸ hp)
    exact Files.bytesAt_congr
      ((Files.at?_erase (Files.ne_nil_of_at? hplace) g).trans (if_neg hg))

/-- **The model of the surroundings is lawful.** -/
theorem lawful_view : view.Lawful where
  readFile _ _ := same_of_files rfl
  print _ _ := same_of_files rfl
  printError _ _ := same_of_files rfl
  createFile_error path w e w' h := by
    change update (·.write? path []) w = _ at h
    cases htarget : w.files.target path with
    | error fault =>
      rw [update_write?_of_error htarget] at h
      cases h
      exact same_of_files rfl
    | ok place =>
      rw [update_write?_of_ok htarget] at h
      cases h
  createFile_ok path w w' h := by
    change update (·.write? path []) w = _ at h
    cases htarget : w.files.target path with
    | error fault =>
      rw [update_write?_of_error htarget] at h
      cases h
    | ok place =>
      rw [update_write?_of_ok htarget] at h
      cases h
      exact ⟨place, opened_of_target htarget⟩
  removeFile path w place h := removed_of_fileAt? h

end World

end RvBackend.Command
