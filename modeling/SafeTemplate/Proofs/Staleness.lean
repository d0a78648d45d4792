/-
**When an output is out of date.**

An output is out of date if it is missing, or if a file that it is made from exists and was changed
later.  The check looks at the sources one by one and asks of each whether it is newer than the output.
A source that is missing is newer than nothing, not even than an output that is missing, too.  So the
check misses one state of a disk: that neither the output nor any source exists.

Main definitions:

* `Disk.ChangedAt`, `Disk.Missing` — when something was last changed, and that nothing is there;
* `Project.Outdated` — an output is out of date.

Main results:

* `Disk.modified?_eq_some_iff`, `Disk.modified?_eq_none_iff` — the time that is read off a disk;
* `Project.isNewer_iff` — a source decides if it exists;
* `Project.isStale_iff` — **what is reported as stale is what is out of date and has a source**;
* `Project.not_isStale_outdated` — a missing output without sources is reported as fresh.
-/

import SafeTemplate.Project.Build

set_option autoImplicit false

namespace SafeTemplate

/-! ### Times of change -/

namespace Disk

/-- Something stands where a path leads, and `time` is when it was last changed. -/
inductive ChangedAt (disk : Disk) (path : Text) : Nat → Prop
  | file {place : Place} {content : ByteArray} {time : Nat} (hpath : disk.locate path = .ok place)
      (hnode : disk.node? place = some (.file content time)) : ChangedAt disk path time
  | directory {place : Place} {names : List Text} {time : Nat} (hpath : disk.locate path = .ok place)
      (hnode : disk.node? place = some (.directory names time)) : ChangedAt disk path time

/-- Nothing stands where a path leads. -/
def Missing (disk : Disk) (path : Text) : Prop :=
  ∀ time, ¬disk.ChangedAt path time

variable {disk : Disk} {path : Text}

theorem modified?_eq_some_iff {time : Nat} :
    disk.modified? path = some time ↔ disk.ChangedAt path time := by
  constructor
  · intro h
    unfold modified? at h
    split at h
    · cases h
    · next place hpath =>
        split at h
        · next hnode =>
            cases h
            exact .file hpath hnode
        · next hnode =>
            cases h
            exact .directory hpath hnode
        · cases h
  · intro h
    unfold modified?
    cases h with
    | file hpath hnode => simp only [hpath, hnode]
    | directory hpath hnode => simp only [hpath, hnode]

theorem modified?_eq_none_iff : disk.modified? path = none ↔ disk.Missing path := by
  rw [Option.eq_none_iff_forall_ne_some]
  exact forall_congr' fun time => not_congr modified?_eq_some_iff

end Disk

/-! ### Staleness -/

namespace Project

/-- An output is out of date: it is missing, or a file that it is made from exists and was changed
later. -/
def Outdated (disk : Disk) (root input output : Text) : Prop :=
  disk.Missing output ∨ ∃ source ∈ sources root input, ∃ changed built,
    disk.ChangedAt source changed ∧ disk.ChangedAt output built ∧ built < changed

/-- A source decides if it exists: the output is missing or older. -/
theorem isNewer_iff (disk : Disk) (source output : Text) :
    isNewer disk source output = true ↔
      ∃ changed, disk.ChangedAt source changed ∧
        (disk.Missing output ∨ ∃ built, disk.ChangedAt output built ∧ built < changed) := by
  simp only [← Disk.modified?_eq_some_iff, ← Disk.modified?_eq_none_iff]
  unfold isNewer
  cases disk.modified? source with
  | none => simp
  | some changed => cases disk.modified? output <;> simp

/-- **What is reported as stale is what is out of date and has a source**: the output is missing or
older than a source that exists, and at least one source exists. -/
theorem isStale_iff (disk : Disk) (root input output : Text) :
    isStale disk root input output = true ↔
      Outdated disk root input output ∧ ∃ source ∈ sources root input, ¬disk.Missing source := by
  have hexists {path : Text} {time : Nat} (h : disk.ChangedAt path time) : ¬disk.Missing path :=
    fun hmissing => hmissing time h
  rw [isStale, List.any_eq_true]
  simp only [isNewer_iff]
  constructor
  · rintro ⟨source, hsource, changed, hchanged, hmissing | ⟨built, hbuilt, hlater⟩⟩
    · exact ⟨.inl hmissing, source, hsource, hexists hchanged⟩
    · exact ⟨.inr ⟨source, hsource, changed, built, hchanged, hbuilt, hlater⟩,
        source, hsource, hexists hchanged⟩
  · rintro ⟨hmissing | ⟨source, hsource, changed, built, hchanged, hbuilt, hlater⟩, hsome⟩
    · obtain ⟨source, hsource, hpresent⟩ := hsome
      obtain ⟨changed, hchanged⟩ := Classical.not_forall_not.1 hpresent
      exact ⟨source, hsource, changed, hchanged, .inl hmissing⟩
    · exact ⟨source, hsource, changed, hchanged, .inr ⟨built, hbuilt, hlater⟩⟩

/-- **A missing output without sources is reported as fresh.** -/
theorem not_isStale_outdated :
    ¬∀ (disk : Disk) (root input output : Text),
      isStale disk root input output = true ↔ Outdated disk root input output := by
  intro h
  have hfresh : isStale (.blank 0) ['.'] "in.coffee".toList "out.coffee".toList = false := by
    decide
  have hmissing : (Disk.blank 0).Missing "out.coffee".toList :=
    Disk.modified?_eq_none_iff.1 (by decide)
  have hstale := (h (.blank 0) ['.'] "in.coffee".toList "out.coffee".toList).2 (.inl hmissing)
  rw [hfresh] at hstale
  cases hstale

end Project

end SafeTemplate
