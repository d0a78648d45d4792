/-
**What writing a file changes.**

A file is written in two steps: the directories above it are made as far as they are missing, and then
the content is put at the place that the path leads to.  A directory is made only where nothing stood,
so the first step changes no file, whether it succeeds or not.  The second changes one file, and
afterwards the path leads to it: the way there goes through directories that are still directories.

Main definitions:

* `Disk.content?` — the content of the file at a place;
* `Disk.SameFiles` — the same files with the same contents;
* `Disk.Grows` — what stands on a disk still stands there, and directories are still directories;
* `Disk.Target` — the place where a path writes a file;
* `Disk.Written` — a disk holds a content at a path, and all other files as before.

Main results:

* `Disk.sameFiles_makeDirectories` — making directories changes no file;
* `Disk.followAll_of_grows` — a way that leads somewhere still leads there;
* `Disk.written_writeFile` — writing a file changes that file only, and the path leads to it;
* `Disk.writeBytes_cases` — **a file is written as a whole, or no file changes**.
-/

import Mathlib.Data.List.Basic
import SafeTemplate.Files.Disk

set_option autoImplicit false

namespace SafeTemplate

/-! ### Paths -/

namespace Path

theorem pieces_ne_nil (path : Text) : pieces path ≠ [] := by
  cases path with
  | nil => exact List.cons_ne_nil _ _
  | cons c s =>
      unfold pieces
      split
      · exact List.cons_ne_nil _ _
      · split <;> exact List.cons_ne_nil _ _

/-- A character that is no slash starts the first piece. -/
theorem exists_pieces_cons {c : Char} (hc : c ≠ '/') (s : Text) :
    ∃ piece more, pieces s = piece :: more ∧ pieces (c :: s) = (c :: piece) :: more := by
  cases hpieces : pieces s with
  | nil => exact absurd hpieces (pieces_ne_nil s)
  | cons piece more =>
      refine ⟨piece, more, rfl, ?_⟩
      rw [pieces, if_neg hc, hpieces]

/-- The last piece of a path is empty only if the path is, or ends with a slash. -/
theorem getLast?_pieces_ne {path : Text} (hne : path ≠ []) (hslash : endsWithSlash path = false) :
    (pieces path).getLast? ≠ some [] := by
  induction path with
  | nil => exact absurd rfl hne
  | cons c s ih =>
      have hrest : s ≠ [] → (pieces s).getLast? ≠ some [] := by
        intro hs
        refine ih hs ?_
        rwa [endsWithSlash, List.getLast?_cons_of_ne_nil hs] at hslash
      by_cases hc : c = '/'
      · subst hc
        rw [pieces, if_pos rfl, List.getLast?_cons_of_ne_nil (pieces_ne_nil s)]
        apply hrest
        rintro rfl
        cases hslash
      · obtain ⟨piece, more, hpieces, hcons⟩ := exists_pieces_cons hc s
        rw [hcons]
        cases more with
        | nil => simp
        | cons next more =>
            rw [List.getLast?_cons_of_ne_nil (List.cons_ne_nil _ _)]
            rw [hpieces, List.getLast?_cons_of_ne_nil (List.cons_ne_nil _ _)] at hrest
            apply hrest
            rintro rfl
            cases hpieces

end Path

namespace Disk

/-! ### Contents -/

/-- What a node holds, if it is a file. -/
def Node.content? : Node → Option ByteArray
  | file content _ => some content
  | directory _ _ => none

/-- The content of the file at a place, if there is one. -/
def content? (disk : Disk) (place : Place) : Option ByteArray :=
  (disk.node? place).bind Node.content?

theorem content?_put (disk : Disk) (place place' : Place) (node : Node) :
    (disk.put place node).content? place' =
      if place = place' then node.content? else disk.content? place' := by
  rw [content?, node?_put]
  split <;> rfl

theorem isDirectory_iff (disk : Disk) (place : Place) :
    disk.isDirectory place = true ↔ ∃ names time, disk.node? place = some (.directory names time) := by
  unfold isDirectory
  split
  · next names time hnode => exact iff_of_true rfl ⟨names, time, hnode⟩
  · next hnode =>
      exact iff_of_false Bool.false_ne_true fun ⟨names, time, hdirectory⟩ => hnode names time hdirectory

theorem not_isDirectory_of_file {disk : Disk} {place : Place} {content : ByteArray} {time : Nat}
    (h : disk.node? place = some (.file content time)) : ¬disk.isDirectory place = true := by
  rw [isDirectory_iff, h]
  rintro ⟨names, time', hdirectory⟩
  cases hdirectory

theorem not_isDirectory_of_none {disk : Disk} {place : Place} (h : disk.node? place = none) :
    ¬disk.isDirectory place = true := by
  rw [isDirectory_iff, h]
  rintro ⟨names, time, hdirectory⟩
  cases hdirectory

/-- The files of a disk are those of another one, with the same contents. -/
def SameFiles (disk after : Disk) : Prop :=
  ∀ place, after.content? place = disk.content? place

namespace SameFiles

theorem refl (disk : Disk) : SameFiles disk disk := fun _ => rfl

theorem trans {disk between after : Disk} (h : SameFiles disk between)
    (h' : SameFiles between after) : SameFiles disk after :=
  fun place => (h' place).trans (h place)

/-- A directory comes where no file stood. -/
theorem put_directory {disk : Disk} {place : Place} (h : disk.content? place = none)
    (names : List Text) (time : Nat) : SameFiles disk (disk.put place (.directory names time)) := by
  intro place'
  rw [content?_put]
  split
  · next heq => rw [← heq, h]; rfl
  · rfl

/-- Only a directory gets a name. -/
theorem enter (disk : Disk) (place : Place) (name : Text) :
    SameFiles disk (disk.enter place name) := by
  unfold Disk.enter
  split
  · next names time hnode =>
      exact put_directory (by rw [content?, hnode]; rfl) _ _
  · exact refl disk

end SameFiles

/-! ### Making directories -/

/-- Nothing is found under a name only where nothing stands. -/
theorem of_follow_eq_notFound {disk : Disk} {place : Place} {name : Text}
    (h : disk.follow place name = .error .notFound) : disk.node? (place ++ [name]) = none := by
  unfold follow at h
  split at h
  · cases h
  · split at h
    · cases h
    · split at h
      · split at h <;> cases h
      · split at h
        · cases h
        · next hnode => simpa using hnode

theorem sameFiles_makeDirectory {disk after : Disk} {start : Place} {names : List Text}
    (h : disk.makeDirectory start names = .ok after) : SameFiles disk after := by
  unfold makeDirectory at h
  split at h
  · cases h
  · split at h
    · cases h
    · cases h
    · next place name _ _ =>
        split at h
        · cases h
        · next hfollow =>
            cases h
            have hnothing : disk.tick.content? (place ++ [name]) = none := by
              show (disk.node? (place ++ [name])).bind Node.content? = none
              rw [of_follow_eq_notFound hfollow]
              rfl
            exact (SameFiles.put_directory hnothing [] disk.tick.clock).trans (.enter _ _ _)
        · cases h

/-- **Making directories changes no file**, whether it succeeds or not. -/
theorem sameFiles_makeDirectories (disk : Disk) (start : Place) (names : List Text) :
    SameFiles disk (disk.makeDirectories start names).2 := by
  induction names with
  | nil => exact .refl disk
  | cons name parents ih =>
      rw [makeDirectories]
      split
      · next hmade => exact sameFiles_makeDirectory hmade
      · split
        · next hparents => rwa [hparents] at ih
        · next between hparents =>
            rw [hparents] at ih
            split
            · next hmade => exact ih.trans (sameFiles_makeDirectory hmade)
            · split <;> exact ih
      · split <;> exact .refl disk

/-! ### The way to a place -/

/-- What stands on a disk still stands there, directories are still directories, and relative paths
start where they did. -/
structure Grows (disk after : Disk) : Prop where
  present : ∀ place, (disk.node? place).isSome = true → (after.node? place).isSome = true
  directory : ∀ place, disk.isDirectory place = true → after.isDirectory place = true
  working : after.working = disk.working

namespace Grows

theorem refl (disk : Disk) : Grows disk disk :=
  ⟨fun _ h => h, fun _ h => h, rfl⟩

theorem tick (disk : Disk) : Grows disk disk.tick :=
  ⟨fun _ h => h, fun _ h => h, rfl⟩

theorem trans {disk between after : Disk} (h : Grows disk between) (h' : Grows between after) :
    Grows disk after :=
  ⟨fun place hplace => h'.present place (h.present place hplace),
    fun place hplace => h'.directory place (h.directory place hplace), h'.working.trans h.working⟩

/-- A node is put where no directory stands, or it is one itself. -/
theorem put {disk : Disk} {place : Place} {node : Node}
    (h : disk.isDirectory place = true → ∃ names time, node = .directory names time) :
    Grows disk (disk.put place node) := by
  refine ⟨?_, ?_, rfl⟩
  · intro place' hplace'
    rw [node?_put]
    split
    · rfl
    · exact hplace'
  · intro place' hplace'
    rw [isDirectory_iff, node?_put]
    split
    · next heq =>
        subst heq
        obtain ⟨names, time, rfl⟩ := h hplace'
        exact ⟨names, time, rfl⟩
    · exact (isDirectory_iff disk place').1 hplace'

theorem enter (disk : Disk) (place : Place) (name : Text) : Grows disk (disk.enter place name) := by
  unfold Disk.enter
  split
  · exact put fun _ => ⟨_, _, rfl⟩
  · exact refl disk

theorem start {disk after : Disk} (h : Grows disk after) (path : Text) :
    after.start path = disk.start path := by
  rw [Disk.start, Disk.start, h.working]

end Grows

section Way

variable {disk after : Disk} {place place' : Place}

theorem isDirectory_of_follow {piece : Text} (h : disk.follow place piece = .ok place') :
    disk.isDirectory place = true := by
  unfold follow at h
  split at h
  · cases h
  · next hdirectory => simpa using hdirectory

/-- A step that leads somewhere still leads there. -/
theorem follow_of_grows (hgrows : Grows disk after) {piece : Text}
    (h : disk.follow place piece = .ok place') : after.follow place piece = .ok place' := by
  have hbefore := isDirectory_of_follow h
  have hafter := hgrows.directory place hbefore
  unfold follow at h ⊢
  rw [hbefore] at h
  rw [hafter]
  simp only [Bool.not_true, Bool.false_eq_true, if_false] at h ⊢
  split at h
  · next hhere => rwa [if_pos hhere]
  · next hhere =>
      rw [if_neg hhere]
      split at h
      · next habove =>
          rw [if_pos habove]
          split at h
          · next hup => rwa [if_pos (hgrows.directory _ hup)]
          · cases h
      · next habove =>
          rw [if_neg habove]
          split at h
          · next hname => rwa [if_pos (hgrows.present _ hname)]
          · cases h

/-- **A way that leads somewhere still leads there.** -/
theorem followAll_of_grows (hgrows : Grows disk after) {pieces : List Text}
    (h : disk.followAll place pieces = .ok place') : after.followAll place pieces = .ok place' := by
  induction pieces generalizing place with
  | nil => exact h
  | cons piece more ih =>
      rw [followAll] at h ⊢
      split at h
      · cases h
      · next between hfollow =>
          rw [follow_of_grows hgrows hfollow]
          exact ih h

/-- A path that leads somewhere still leads there. -/
theorem locate_of_grows (hgrows : Grows disk after) {path : Text}
    (h : disk.locate path = .ok place) : after.locate path = .ok place := by
  unfold locate at h ⊢
  split at h
  · cases h
  · next htext =>
      split at h
      · cases h
      · next hnonempty =>
          rw [if_neg htext, if_neg hnonempty, hgrows.start]
          exact followAll_of_grows hgrows h

theorem followAll_append {pieces : List Text} (h : disk.followAll place pieces = .ok place')
    (more : List Text) : disk.followAll place (pieces ++ more) = disk.followAll place' more := by
  induction pieces generalizing place with
  | nil => cases h; rfl
  | cons piece pieces ih =>
      rw [List.cons_append, followAll]
      rw [followAll] at h
      split at h
      · cases h
      · exact ih h

/-- Empty pieces between others make no difference to a way that leads somewhere. -/
theorem followAll_of_filter {pieces : List Text} (hlast : pieces.getLast? ≠ some [])
    (h : disk.followAll place (pieces.filter fun piece => !piece.isEmpty) = .ok place') :
    disk.followAll place pieces = .ok place' := by
  induction pieces generalizing place with
  | nil => exact h
  | cons piece more ih =>
      have hmoreLast : more.getLast? ≠ some [] := by
        intro hempty
        rw [List.getLast?_cons, hempty] at hlast
        exact hlast rfl
      by_cases hpiece : piece = []
      · subst hpiece
        have hmore : more ≠ [] := by
          rintro rfl
          exact hlast rfl
        have hway := ih hmoreLast h
        -- the next step starts from a directory, and so does the one before it
        have hdirectory : disk.isDirectory place = true := by
          obtain ⟨next, more, rfl⟩ := List.exists_cons_of_ne_nil hmore
          rw [followAll] at hway
          split at hway
          · cases hway
          · next hfollow => exact isDirectory_of_follow hfollow
        have hstep : disk.follow place [] = .ok place := by
          unfold follow
          rw [hdirectory]
          rfl
        rw [followAll, hstep]
        exact hway
      · have hfilter : (piece :: more).filter (fun piece => !piece.isEmpty) =
            piece :: more.filter fun piece => !piece.isEmpty :=
          List.filter_cons_of_pos (by simpa using hpiece)
        rw [hfilter, followAll] at h
        rw [followAll]
        split at h
        · cases h
        · exact ih hmoreLast h

end Way

/-! ### Writing a file -/

/-- Where a path writes a file: under the name that it ends with, in a directory that the names before
lead to. -/
structure Target (disk : Disk) (path : Text) (directory : Place) (name : Text) : Prop where
  text : path.contains '\x00' = false
  nonempty : path ≠ []
  slash : Path.endsWithSlash path = false
  way : ∃ way, ((Path.pieces path).filter fun piece => !piece.isEmpty) = way ++ [name] ∧
    disk.followAll (disk.start path) way = .ok directory
  isDirectory : disk.isDirectory directory = true
  ne_here : name ≠ Path.here
  ne_above : name ≠ Path.above

namespace Target

variable {disk after : Disk} {path : Text} {directory : Place} {name : Text}

theorem of_grows (h : Target disk path directory name) (hgrows : Grows disk after) :
    Target after path directory name := by
  obtain ⟨way, hnames, hway⟩ := h.way
  exact { h with
    way := ⟨way, hnames, by rw [hgrows.start]; exact followAll_of_grows hgrows hway⟩
    isDirectory := hgrows.directory _ h.isDirectory }

/-- A path leads to its target, once something stands there. -/
theorem locate (h : Target disk path directory name)
    (hpresent : (disk.node? (directory ++ [name])).isSome = true) :
    disk.locate path = .ok (directory ++ [name]) := by
  obtain ⟨way, hnames, hway⟩ := h.way
  have hname : name ≠ [] := by
    rintro rfl
    have hmem : [] ∈ (Path.pieces path).filter fun piece => !piece.isEmpty := by simp [hnames]
    simp at hmem
  have hstep : disk.follow directory name = .ok (directory ++ [name]) := by
    unfold follow
    simp [h.isDirectory, hname, h.ne_here, h.ne_above, hpresent]
  have hall : disk.followAll (disk.start path) (way ++ [name]) = .ok (directory ++ [name]) := by
    rw [followAll_append hway, followAll, hstep]
    rfl
  rw [← hnames] at hall
  have hlast := Path.getLast?_pieces_ne h.nonempty h.slash
  unfold Disk.locate
  rw [h.text, if_neg Bool.false_ne_true, if_neg (by simpa using h.nonempty)]
  exact followAll_of_filter hlast hall

end Target

/-- A disk holds a content at a path, and all other files of another disk. -/
def Written (disk after : Disk) (path : Text) (content : ByteArray) : Prop :=
  ∃ target, after.locate path = .ok target ∧ after.content? target = some content ∧
    ∀ place, place ≠ target → after.content? place = disk.content? place

/-- Directories that are made before make no difference. -/
theorem Written.of_sameFiles {disk between after : Disk} {path : Text} {content : ByteArray}
    (h : Written between after path content) (hsame : SameFiles disk between) :
    Written disk after path content := by
  obtain ⟨target, hlocate, hcontent, hothers⟩ := h
  exact ⟨target, hlocate, hcontent, fun place hne => (hothers place hne).trans (hsame place)⟩

/-- Directories that are made or changed afterwards make no difference. -/
theorem Written.of_grows {disk between after : Disk} {path : Text} {content : ByteArray}
    (h : Written disk between path content) (hgrows : Grows between after)
    (hsame : SameFiles between after) : Written disk after path content := by
  obtain ⟨target, hlocate, hcontent, hothers⟩ := h
  exact ⟨target, locate_of_grows hgrows hlocate, (hsame target).trans hcontent,
    fun place hne => (hsame place).trans (hothers place hne)⟩

/-- What is written at a path is read there. -/
theorem Written.readBytes {disk after : Disk} {path : Text} {content : ByteArray}
    (h : Written disk after path content) : after.readBytes path = .ok content := by
  obtain ⟨target, hlocate, hcontent, -⟩ := h
  rw [content?, Option.bind_eq_some_iff] at hcontent
  obtain ⟨node, hnode, hfile⟩ := hcontent
  cases node with
  | directory names time => cases hfile
  | file content' time =>
      cases hfile
      simp [Disk.readBytes, hlocate, hnode]

/-- How a file is written: at the target of the path, where no directory stands. -/
theorem writeFile_cases {disk after : Disk} {path : Text} {content : ByteArray}
    (h : disk.writeFile path content = .ok after) :
    ∃ directory name, Target disk path directory name ∧
      ¬disk.isDirectory (directory ++ [name]) = true ∧
      (after = disk.tick.put (directory ++ [name]) (.file content disk.now) ∨
        after = (disk.tick.put (directory ++ [name]) (.file content disk.now)).enter directory name) := by
  unfold writeFile at h
  split at h
  · cases h
  · next htext =>
      split at h
      · cases h
      · next hnonempty =>
          dsimp only at h
          split at h
          · cases h
          · cases h
          · next directory name hway hname =>
              split at h
              · cases h
              · next hdirectory =>
                  split at h
                  · cases h
                  · next hlast =>
                      obtain ⟨hhere, habove, hslash⟩ : name ≠ Path.here ∧ name ≠ Path.above ∧
                          ¬ Path.endsWithSlash path = true := by simpa using hlast
                      have hnames := (List.dropLast_append_getLast? name hname).symm
                      have htarget : Target disk path directory name := {
                        text := by simpa using htext
                        nonempty := by simpa using hnonempty
                        slash := by simpa using hslash
                        way := ⟨_, hnames, hway⟩
                        isDirectory := by simpa using hdirectory
                        ne_here := hhere
                        ne_above := habove }
                      refine ⟨directory, name, htarget, ?_⟩
                      split at h
                      · cases h
                      · next hnode =>
                          cases h
                          exact ⟨not_isDirectory_of_file hnode, .inl rfl⟩
                      · next hnode =>
                          cases h
                          exact ⟨not_isDirectory_of_none hnode, .inr rfl⟩

/-- **Writing a file changes that file only, and the path leads to it.** -/
theorem written_writeFile {disk after : Disk} {path : Text} {content : ByteArray}
    (h : disk.writeFile path content = .ok after) : Written disk after path content := by
  obtain ⟨directory, name, htarget, hfree, hafter⟩ := writeFile_cases h
  have hgrows : Grows disk (disk.tick.put (directory ++ [name]) (.file content disk.now)) := by
    exact (Grows.tick disk).trans (.put fun hdirectory => absurd hdirectory hfree)
  have hput : Written disk (disk.tick.put (directory ++ [name]) (.file content disk.now))
      path content := by
    refine ⟨directory ++ [name], ?_, ?_, ?_⟩
    · apply (htarget.of_grows hgrows).locate
      rw [node?_put, if_pos rfl]
      rfl
    · rw [content?_put, if_pos rfl]
      rfl
    · intro place hne
      rw [content?_put, if_neg (Ne.symm hne)]
      rfl
  obtain rfl | rfl := hafter
  · exact hput
  · exact hput.of_grows (.enter _ _ _) (.enter _ _ _)

/-- **A file is written as a whole, or no file changes.** -/
theorem writeBytes_cases (disk : Disk) (path : Text) (content : ByteArray) :
    match disk.writeBytes path content with
    | (none, after) => Written disk after path content
    | (some _, after) => SameFiles disk after := by
  have hparents : SameFiles disk (disk.makeParents path).2 := by
    unfold makeParents
    split
    · exact .refl disk
    · exact sameFiles_makeDirectories _ _ _
  rw [writeBytes]
  cases hmade : disk.makeParents path with
  | mk fault? between =>
      rw [hmade] at hparents
      cases fault? with
      | some fault => exact hparents
      | none =>
          cases hwrite : between.writeFile path content with
          | error fault => simpa only [hwrite] using hparents
          | ok after => simpa only [hwrite] using (written_writeFile hwrite).of_sameFiles hparents

/-- A path that climbs above the working directory leads where the absolute path leads. -/
example (content : ByteArray) :
    let disk : Disk := ⟨[([], .directory [['w']] 0), ([['w']], .directory [] 0)], [['w']], 0⟩
    (disk.writeBytes "../out/a".toList content).2.readBytes "/out/a".toList = .ok content := rfl

end Disk

end SafeTemplate
