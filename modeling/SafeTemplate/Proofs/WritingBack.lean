/-
**A file that can be read can be written.**

The way to a file goes through directories only: every step starts from a directory, and one that stays
or goes up leads to a directory.  So the last piece of a path to a file is a name, in a directory that the
pieces before it lead to.  These directories need not be made, and no directory stands where the file is
written.  Nothing else can keep it from being written, since a disk has no permissions.

Main results:

* `Disk.follow_cases` — what one step on a way can be;
* `Disk.exists_target_of_readBytes` — a path that can be read leads to where it would be written;
* `Disk.Target.makeParents` — the directories above it are there;
* `Disk.writeBytes_of_readBytes` — **a file that can be read can be written**.
-/

import SafeTemplate.Proofs.Writing

set_option autoImplicit false

namespace SafeTemplate

/-! ### Pieces of a path -/

namespace Path

/-- A piece of a path has only characters of the path. -/
theorem mem_of_mem_pieces {path piece : Text} {c : Char} (h : piece ∈ pieces path) (hc : c ∈ piece) :
    c ∈ path := by
  induction path generalizing piece with
  | nil =>
      obtain rfl := List.mem_singleton.1 h
      exact hc
  | cons d path ih =>
      by_cases hd : d = '/'
      · rw [pieces, if_pos hd] at h
        rcases List.mem_cons.1 h with rfl | hmore
        · cases hc
        · exact List.mem_cons_of_mem d (ih hmore hc)
      · obtain ⟨first, more, hpieces, hcons⟩ := exists_pieces_cons hd path
        rw [hpieces] at ih
        rw [hcons] at h
        rcases List.mem_cons.1 h with rfl | hmore
        · rcases List.mem_cons.1 hc with rfl | hfirst
          · exact List.mem_cons_self
          · exact List.mem_cons_of_mem d (ih List.mem_cons_self hfirst)
        · exact List.mem_cons_of_mem d (ih (List.mem_cons_of_mem first hmore) hc)

/-- Behind a slash at the end of a path there is an empty piece. -/
theorem pieces_concat_slash (path : Text) : pieces (path ++ ['/']) = pieces path ++ [[]] := by
  induction path with
  | nil => rfl
  | cons c s ih =>
      rw [List.cons_append]
      by_cases hc : c = '/'
      · rw [pieces, if_pos hc, ih, pieces, if_pos hc, List.cons_append]
      · obtain ⟨piece, more, hpieces, hcons⟩ := exists_pieces_cons hc s
        rw [hpieces, List.cons_append] at ih
        rw [pieces, if_neg hc, ih, hcons, List.cons_append]

/-- A path whose last piece is not empty has no slash at its end. -/
theorem endsWithSlash_of_pieces {path last : Text} {init : List Text}
    (h : pieces path = init ++ [last]) (hlast : last ≠ []) : endsWithSlash path = false := by
  rw [← Bool.not_eq_true]
  intro hends
  obtain ⟨start, rfl⟩ : ∃ start, path = start ++ ['/'] :=
    List.getLast?_eq_some_iff.1 (by simpa [endsWithSlash] using hends)
  rw [pieces_concat_slash] at h
  have hempty : [] = last := List.singleton_inj.1 (List.append_inj_right' h rfl)
  exact hlast hempty.symm

theorem parent?_of_names {path name : Text} {way : List Text} (h : names path = way ++ [name]) :
    parent? path = some way := by
  obtain ⟨first, more, hcons⟩ : ∃ first more, way ++ [name] = first :: more :=
    List.exists_cons_of_ne_nil (by simp)
  have hparent : parent? path = some (first :: more).dropLast := by rw [parent?, h, hcons]
  rw [hparent, ← hcons, List.dropLast_concat]

end Path

namespace Disk

/-! ### One step -/

section Way

variable {disk : Disk} {place place' : Place}

/-- **What one step on a way can be**: from a directory to itself, to the one above, or to a name in
it. -/
theorem follow_cases {piece : Text} (h : disk.follow place piece = .ok place') :
    disk.isDirectory place = true ∧
      ((piece = [] ∨ piece = Path.here) ∧ place' = place ∨
        piece = Path.above ∧ disk.isDirectory place' = true ∨
        (piece ≠ [] ∧ piece ≠ Path.here ∧ piece ≠ Path.above) ∧ place' = place ++ [piece]) := by
  refine ⟨isDirectory_of_follow h, ?_⟩
  unfold follow at h
  split at h
  · cases h
  · split at h
    · next hstay =>
        cases h
        exact .inl ⟨by simpa using hstay, rfl⟩
    · next hmove =>
        obtain ⟨hne, hhere⟩ : piece ≠ [] ∧ piece ≠ Path.here := by simpa using hmove
        split at h
        · next habove =>
            split at h
            · next hup =>
                cases h
                exact .inr (.inl ⟨habove, hup⟩)
            · cases h
        · next habove =>
            split at h
            · cases h
              exact .inr (.inr ⟨⟨hne, hhere, habove⟩, rfl⟩)
            · cases h

/-- The last step of a way. -/
theorem exists_of_followAll_concat {pieces : List Text} {piece : Text}
    (h : disk.followAll place (pieces ++ [piece]) = .ok place') :
    ∃ between, disk.followAll place pieces = .ok between ∧ disk.follow between piece = .ok place' := by
  induction pieces generalizing place with
  | nil =>
      rw [List.nil_append, followAll] at h
      split at h
      · cases h
      · next between hfollow =>
          cases h
          exact ⟨place, rfl, hfollow⟩
  | cons first more ih =>
      rw [List.cons_append, followAll] at h
      rw [followAll]
      split at h
      · cases h
      · exact ih h

/-- Pieces that lead nowhere can be left out of a way. -/
theorem followAll_filter (keep : Text → Bool) {pieces : List Text}
    (hkeep : ∀ piece, keep piece = false → piece = [] ∨ piece = Path.here)
    (h : disk.followAll place pieces = .ok place') :
    disk.followAll place (pieces.filter keep) = .ok place' := by
  induction pieces generalizing place with
  | nil => exact h
  | cons piece more ih =>
      rw [followAll] at h
      split at h
      · cases h
      · next between hfollow =>
          cases hpiece : keep piece with
          | true =>
              rw [List.filter_cons_of_pos hpiece, followAll, hfollow]
              exact ih h
          | false =>
              rw [List.filter_cons_of_neg (by simp [hpiece])]
              obtain ⟨-, ⟨-, rfl⟩ | ⟨habove, -⟩ | ⟨⟨hne, hhere, -⟩, -⟩⟩ := follow_cases hfollow
              · exact ih h
              · rcases hkeep piece hpiece with rfl | rfl <;> exact absurd habove (by decide)
              · exact absurd (hkeep piece hpiece) (by simp [hne, hhere])

end Way

/-! ### Where a path that can be read is written -/

section Target

variable {disk : Disk} {path : Text}

theorem of_locate_eq_ok {place : Place} (h : disk.locate path = .ok place) :
    path.contains '\x00' = false ∧ path ≠ [] ∧
      disk.followAll (disk.start path) (Path.pieces path) = .ok place := by
  unfold locate at h
  split at h
  · cases h
  · next htext =>
      split at h
      · cases h
      · next hnonempty => exact ⟨by simpa using htext, by simpa using hnonempty, h⟩

theorem of_readBytes_eq_ok {content : ByteArray} (h : disk.readBytes path = .ok content) :
    ∃ place time, disk.locate path = .ok place ∧
      disk.node? place = some (.file content time) := by
  unfold readBytes at h
  split at h
  · cases h
  · next place hlocate =>
      split at h
      · next time hnode =>
          cases h
          exact ⟨place, time, hlocate, hnode⟩
      · cases h
      · cases h

/-- **A path that can be read leads to where it would be written.**  Its last piece is a name, since a
way that ends in anything else ends in a directory. -/
theorem exists_target_of_readBytes {content : ByteArray} (h : disk.readBytes path = .ok content) :
    ∃ directory name, Target disk path directory name ∧
      ¬disk.isDirectory (directory ++ [name]) = true := by
  obtain ⟨place, time, hlocate, hnode⟩ := of_readBytes_eq_ok h
  obtain ⟨htext, hnonempty, hall⟩ := of_locate_eq_ok hlocate
  have hfile := not_isDirectory_of_file hnode
  obtain ⟨init, last, hpieces⟩ : ∃ init last, Path.pieces path = init ++ [last] :=
    (List.eq_nil_or_concat' _).resolve_left (Path.pieces_ne_nil path)
  rw [hpieces] at hall
  obtain ⟨directory, hway, hlast⟩ := exists_of_followAll_concat hall
  obtain ⟨hdirectory, ⟨-, rfl⟩ | ⟨-, hup⟩ | ⟨⟨hne, hhere, habove⟩, rfl⟩⟩ := follow_cases hlast
  · exact absurd hdirectory hfile
  · exact absurd hup hfile
  · have hslash := Path.endsWithSlash_of_pieces hpieces hne
    refine ⟨directory, last, ⟨htext, hnonempty, hslash, ?_, hdirectory, hhere, habove⟩, hfile⟩
    refine ⟨init.filter fun piece => !piece.isEmpty, ?_, followAll_filter _ ?_ hway⟩
    · rw [hpieces, List.filter_append, List.filter_cons_of_pos (by simpa using hne), List.filter_nil]
    · intro piece hpiece
      exact .inl (by simpa using hpiece)

/-! ### Writing there -/

/-- Directories that are there need not be made. -/
theorem makeDirectories_of_followAll {start place : Place} {names : List Text}
    (hway : disk.followAll start names = .ok place) (hdirectory : disk.isDirectory place = true)
    (htext : ∀ name ∈ names, '\x00' ∉ name) :
    disk.makeDirectories start names.reverse = (none, disk) := by
  obtain rfl | ⟨init, last, rfl⟩ := List.eq_nil_or_concat' names
  · rfl
  · obtain ⟨between, hinit, hlast⟩ := exists_of_followAll_concat hway
    have hmade : disk.makeDirectory start (init ++ [last]) = .error .alreadyExists := by
      have hnul : ((init ++ [last]).any fun name => name.contains '\x00') = false := by
        rw [List.any_eq_false]
        intro name hmem
        simpa using htext name hmem
      unfold makeDirectory
      rw [hnul, List.dropLast_concat, hinit, List.getLast?_concat]
      simp [hlast]
    have hleads : disk.leadToDirectory start (init ++ [last]) = true := by
      rw [leadToDirectory, hway]
      exact hdirectory
    rw [List.reverse_concat, makeDirectories, List.reverse_cons, List.reverse_reverse, hmade]
    simp [hleads]

namespace Target

variable {directory : Place} {name : Text}

/-- **The directories above a target are there.** -/
theorem makeParents (h : Target disk path directory name) : disk.makeParents path = (none, disk) := by
  obtain ⟨way, hnames, hway⟩ := h.way
  -- the parent of a path has no pieces that lead nowhere
  have hsplit : Path.names path = (way.filter fun piece => piece != Path.here) ++ [name] := by
    have htwice : Path.names path = ((Path.pieces path).filter fun piece => !piece.isEmpty).filter
        fun piece => piece != Path.here := by
      simp [Path.names, List.filter_filter, Bool.and_comm]
    rw [htwice, hnames, List.filter_append,
      List.filter_cons_of_pos (by simpa using h.ne_here), List.filter_nil]
  have htext : ∀ name ∈ way.filter fun piece => piece != Path.here, '\x00' ∉ name := by
    intro name hmem hnul
    have hpiece : name ∈ (Path.pieces path).filter fun piece => !piece.isEmpty := by
      rw [hnames]
      exact List.mem_append_left _ (List.mem_of_mem_filter hmem)
    have hpath := Path.mem_of_mem_pieces (List.mem_of_mem_filter hpiece) hnul
    simpa [hpath] using h.text
  have hfiltered := followAll_filter (fun piece => piece != Path.here)
    (fun piece hpiece => .inr (by simpa using hpiece)) hway
  rw [Disk.makeParents, Path.parent?_of_names hsplit]
  exact makeDirectories_of_followAll hfiltered h.isDirectory htext

/-- A file is written at a target where no directory stands. -/
theorem writeFile (h : Target disk path directory name)
    (hfree : ¬disk.isDirectory (directory ++ [name]) = true)
    (content : ByteArray) : ∃ after, disk.writeFile path content = .ok after := by
  obtain ⟨way, hnames, hway⟩ := h.way
  have hlast : ¬(name = Path.here ∨ name = Path.above ∨ Path.endsWithSlash path = true) := by
    simp [h.ne_here, h.ne_above, h.slash]
  unfold Disk.writeFile
  rw [hnames]
  dsimp only
  rw [List.dropLast_concat, List.getLast?_concat, hway, h.text]
  simp only [Bool.false_eq_true, if_false, List.isEmpty_iff, h.nonempty, h.isDirectory, Bool.not_true,
    hlast]
  cases hnode : disk.tick.node? (directory ++ [name]) with
  | none => exact ⟨_, rfl⟩
  | some node =>
      cases node with
      | directory names time =>
          exact absurd ((isDirectory_iff _ _).2 ⟨names, time, hnode⟩) hfree
      | file content' time => exact ⟨_, rfl⟩

end Target

/-- **A file that can be read can be written.** -/
theorem writeBytes_of_readBytes {content : ByteArray} (h : disk.readBytes path = .ok content)
    (content' : ByteArray) : ∃ after, disk.writeBytes path content' = (none, after) := by
  obtain ⟨directory, name, htarget, hfree⟩ := exists_target_of_readBytes h
  obtain ⟨after, hwrite⟩ := htarget.writeFile hfree content'
  exact ⟨after, by rw [writeBytes, htarget.makeParents]; simp only [hwrite]⟩

end Target

end Disk

end SafeTemplate
