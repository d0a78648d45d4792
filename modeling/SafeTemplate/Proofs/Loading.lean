/-
**Where the data of a project comes from.**

The data of a project has three layers: the package file, the version file, and the overrides.  The
version file adds to one member only, the metadata, and hides what the package file has there; an
override hides whatever stands below it, be it the metadata as a whole.  Of two overrides for one key
the later one counts.  So each key can be looked up by itself, from the top layer down, and this is
what is proved here, together with which projects are refused, and for what.

Main definitions:

* `Project.IsOverride`, `Project.OverrideMeans` — an override, and the value that its text means;
* `Project.Loadable`, `Project.Unloadable` — the projects that have data, and the fault of the others;
* `Project.Layered` — **the law of the layers**, key by key.

Main results:

* `Project.applyOverrides_eq_error_iff` — the overrides fail for the first one that is none;
* `Project.lookup_applyOverrides_last`, `Project.lookup_applyOverrides_other` — an override hides what
  is below it, and nothing else;
* `Project.completeMeta_cases` — so does the version file, in the metadata;
* `Project.load_layers` — **a project is loaded exactly if its layers are well-formed, with the data
  that the layers give, and otherwise it is refused for the first fault**.
-/

import SafeTemplate.Project.Build
import SafeTemplate.Proofs.OrderedMembers

set_option autoImplicit false

namespace SafeTemplate

namespace Project

open Json (Members)

/-! ### Overrides -/

/-- An override sets a key to what a text means.  The key ends at the first equals sign. -/
def IsOverride (item key text : Text) : Prop :=
  '=' ∉ key ∧ item = key ++ '=' :: text

/-- Truth values, numbers and null: the values that an override can have besides texts. -/
inductive IsPlainValue : Json.Value → Prop
  | null : IsPlainValue .null
  | bool (b : Bool) : IsPlainValue (.bool b)
  | number (n : Json.Number) : IsPlainValue (.number n)

/-- The value that the text of an override means: the truth value, number or null that it is a JSON
document of, and else the text itself. -/
inductive OverrideMeans (text : Text) : Json.Value → Prop
  | plain {value : Json.Value} (hparse : Json.parse text = .ok value) (hplain : IsPlainValue value) :
      OverrideMeans text value
  | text (hnone : ∀ value, Json.parse text = .ok value → ¬IsPlainValue value) :
      OverrideMeans text (.string text)

theorem overrideMeans_overrideValue (text : Text) : OverrideMeans text (overrideValue text) := by
  unfold overrideValue
  split
  · next b hparse => exact .plain hparse (.bool b)
  · next n hparse => exact .plain hparse (.number n)
  · next hparse => exact .plain hparse .null
  · next hbool hnumber hnull =>
      refine .text ?_
      intro value hparse hplain
      cases hplain with
      | null => exact hnull hparse
      | bool b => exact hbool b hparse
      | number n => exact hnumber n hparse

theorem parseOverride?_of_isOverride {item key text : Text} (h : IsOverride item key text) :
    parseOverride? item = some (key, overrideValue text) := by
  obtain ⟨hkey, rfl⟩ := h
  suffices hcut : Text.cut? ['='] (key ++ '=' :: text) = some (key, text) by
    rw [parseOverride?, hcut]
    rfl
  induction key with
  | nil => rfl
  | cons c key ih =>
      obtain ⟨hc, hkey⟩ := not_or.1 fun hmem => hkey (List.mem_cons.2 hmem)
      have hstart : Text.after? ['='] (c :: (key ++ '=' :: text)) = none := if_neg hc
      rw [List.cons_append, Text.cut?, hstart, ih hkey]
      rfl

theorem parseOverride?_eq_none {item : Text} (h : '=' ∉ item) : parseOverride? item = none := by
  refine Option.eq_none_iff_forall_ne_some.2 ?_
  intro found hfound
  obtain ⟨halves, hcut, -⟩ := Option.map_eq_some_iff.1 hfound
  have hsplit := Text.cut?_eq_some hcut
  exact h (by simp [hsplit])

/-- What holds an equals sign is an override for what stands before the first one. -/
theorem exists_isOverride {item : Text} (h : '=' ∈ item) : ∃ key text, IsOverride item key text := by
  obtain ⟨key, text, hsplit, hkey⟩ := List.eq_append_cons_of_mem h
  exact ⟨key, text, hkey, hsplit⟩

/-- **The overrides fail for the first one that is none.** -/
theorem applyOverrides_eq_error_iff {overrides : List Text} {data : Members} {fault : Fault} :
    applyOverrides overrides data = .error fault ↔
      ∃ before item after, overrides = before ++ item :: after ∧ (∀ earlier ∈ before, '=' ∈ earlier) ∧
        '=' ∉ item ∧ fault = .badOverride item := by
  induction overrides generalizing data with
  | nil => simp [applyOverrides]
  | cons item more ih =>
      by_cases hitem : '=' ∈ item
      · obtain ⟨key, text, hoverride⟩ := exists_isOverride hitem
        rw [applyOverrides, parseOverride?_of_isOverride hoverride]
        dsimp only
        rw [ih]
        constructor
        · rintro ⟨before, bad, after, rfl, hbefore, hbad, hfault⟩
          exact ⟨item :: before, bad, after, rfl, List.forall_mem_cons.2 ⟨hitem, hbefore⟩, hbad, hfault⟩
        · rintro ⟨before, bad, after, hsplit, hbefore, hbad, hfault⟩
          cases before with
          | nil =>
              obtain ⟨rfl, -⟩ := List.cons.inj hsplit
              exact absurd hitem hbad
          | cons first before =>
              obtain ⟨-, rfl⟩ := List.cons.inj hsplit
              exact ⟨before, bad, after, rfl, (List.forall_mem_cons.1 hbefore).2, hbad, hfault⟩
      · rw [applyOverrides, parseOverride?_eq_none hitem]
        constructor
        · intro h
          cases h
          exact ⟨[], item, more, rfl, by simp, hitem, rfl⟩
        · rintro ⟨before, bad, after, hsplit, hbefore, hbad, rfl⟩
          cases before with
          | nil =>
              obtain ⟨rfl, -⟩ := List.cons.inj hsplit
              rfl
          | cons first before =>
              obtain ⟨rfl, -⟩ := List.cons.inj hsplit
              exact absurd (hbefore item (List.mem_cons_self ..)) hitem

theorem applyOverrides_cons {item key text : Text} (h : IsOverride item key text)
    (more : List Text) (data : Members) :
    applyOverrides (item :: more) data =
      applyOverrides more (data.insert key (overrideValue text)) := by
  rw [applyOverrides, parseOverride?_of_isOverride h]

theorem isOverride_of_applyOverrides {overrides : List Text} {data result : Members}
    (h : applyOverrides overrides data = .ok result) :
    ∀ item ∈ overrides, ∃ key text, IsOverride item key text := by
  induction overrides generalizing data with
  | nil => simp
  | cons item more ih =>
      by_cases hitem : '=' ∈ item
      · obtain ⟨key, text, hoverride⟩ := exists_isOverride hitem
        rw [applyOverrides_cons hoverride] at h
        exact List.forall_mem_cons.2 ⟨⟨key, text, hoverride⟩, ih h⟩
      · rw [applyOverrides, parseOverride?_eq_none hitem] at h
        cases h

theorem IsOverride.equals_mem {item key text : Text} (h : IsOverride item key text) :
    '=' ∈ item := by
  rw [h.2]
  exact List.mem_append_right key (List.mem_cons_self ..)

/-! ### What the overrides hide -/

/-- What no override is for is left as it was. -/
theorem lookup_applyOverrides_other {overrides : List Text} {data result : Members} {key : Text}
    (h : applyOverrides overrides data = .ok result)
    (hother : ∀ item ∈ overrides, ∀ text, ¬IsOverride item key text) :
    Members.lookup key result = Members.lookup key data := by
  induction overrides generalizing data with
  | nil =>
      cases h
      rfl
  | cons item more ih =>
      obtain ⟨hitem, hmore⟩ := List.forall_mem_cons.1 hother
      obtain ⟨key', text, hoverride⟩ := isOverride_of_applyOverrides h item (List.mem_cons_self ..)
      rw [applyOverrides_cons hoverride] at h
      have hne : key' ≠ key := by
        rintro rfl
        exact hitem text hoverride
      rw [ih h hmore, Members.lookup_insert, if_neg hne]

/-- **The last override for a key hides what is below it.** -/
theorem lookup_applyOverrides_last {before after : List Text} {item : Text} {data result : Members}
    {key text : Text} (h : applyOverrides (before ++ item :: after) data = .ok result)
    (hitem : IsOverride item key text)
    (hlast : ∀ later ∈ after, ∀ text', ¬IsOverride later key text') :
    Members.lookup key result = some (overrideValue text) := by
  induction before generalizing data with
  | nil =>
      rw [List.nil_append, applyOverrides_cons hitem] at h
      rw [lookup_applyOverrides_other h hlast, Members.lookup_insert, if_pos rfl]
  | cons first before ih =>
      obtain ⟨key', text', hoverride⟩ :=
        isOverride_of_applyOverrides h first (List.mem_cons_self ..)
      rw [List.cons_append, applyOverrides_cons hoverride] at h
      exact ih h

/-! ### What the version file adds -/

/-- The metadata of a project is an object, if it has any. -/
def MetaFits (package : Json.Value) : Prop :=
  ∀ value, Members.lookup metaKey package.members = some value → ∃ known, value = .object known

/-- The metadata is completed exactly if it is an object, or missing. -/
theorem completeMeta_cases (data version : Members) :
    ((∀ value, Members.lookup metaKey data = some value → ∃ known, value = .object known) ∧
      ∃ known, completeMeta data version =
          .ok (data.insert metaKey (.object (Members.merge known version))) ∧
        ∀ key, Members.lookup key known =
          (Members.lookup metaKey data).bind fun value => Members.lookup key value.members) ∨
    ((∃ value, Members.lookup metaKey data = some value ∧ ∀ known, value ≠ .object known) ∧
      completeMeta data version = .error .metaNotObject) := by
  unfold completeMeta
  split
  · next hnone =>
      left
      refine ⟨?_, [], rfl, fun key => ?_⟩
      · intro value hvalue
        rw [hnone] at hvalue
        cases hvalue
      · rw [hnone]
        rfl
  · next known hknown =>
      left
      refine ⟨?_, known, rfl, fun key => ?_⟩
      · intro value hvalue
        rw [hknown] at hvalue
        exact ⟨known, (Option.some.inj hvalue).symm⟩
      · rw [hknown]
        rfl
  · next value hobject hvalue =>
      right
      refine ⟨⟨value, hvalue, ?_⟩, rfl⟩
      rintro known rfl
      exact hobject known rfl

/-! ### Layers -/

/-- The two files that the data of a project is read from, and what makes them and the overrides
well-formed. -/
structure Loadable (disk : Disk) (root : Text) (overrides : List Text)
    (package version : Json.Value) : Prop where
  package_read : readJson disk (Path.join root packageFile) = .ok package
  version_read : readJson disk (Path.join root versionFile) = .ok version
  meta_fits : MetaFits package
  separated : ∀ item ∈ overrides, '=' ∈ item

/-- The first fault of a project that has no data: in the package file, in the version file, in the
metadata, or in an override. -/
inductive Unloadable (disk : Disk) (root : Text) (overrides : List Text) : Fault → Prop
  | package {fault : Fault} (h : readJson disk (Path.join root packageFile) = .error fault) :
      Unloadable disk root overrides fault
  | version {package : Json.Value} {fault : Fault}
      (hpackage : readJson disk (Path.join root packageFile) = .ok package)
      (h : readJson disk (Path.join root versionFile) = .error fault) :
      Unloadable disk root overrides fault
  | metadata {package version : Json.Value}
      (hpackage : readJson disk (Path.join root packageFile) = .ok package)
      (hversion : readJson disk (Path.join root versionFile) = .ok version)
      (h : ¬MetaFits package) : Unloadable disk root overrides .metaNotObject
  | override {package version : Json.Value} {before after : List Text} {item : Text}
      (hpackage : readJson disk (Path.join root packageFile) = .ok package)
      (hversion : readJson disk (Path.join root versionFile) = .ok version)
      (hmeta : MetaFits package) (hsplit : overrides = before ++ item :: after)
      (hbefore : ∀ earlier ∈ before, '=' ∈ earlier) (h : '=' ∉ item) :
      Unloadable disk root overrides (.badOverride item)

/-- **The law of the layers**: each key has the value of its last override; without one, the metadata
has what the version file adds to the package file, and any other key what the package file has. -/
structure Layered (package version : Json.Value) (overrides : List Text) (data : Members) : Prop where
  overridden : ∀ key text before item after, IsOverride item key text →
    overrides = before ++ item :: after → (∀ later ∈ after, ∀ text', ¬IsOverride later key text') →
      ∃ value, OverrideMeans text value ∧ Members.lookup key data = some value
  completed : (∀ item ∈ overrides, ∀ text, ¬IsOverride item metaKey text) →
    ∃ members, Members.lookup metaKey data = some (.object members) ∧
      ∀ key, Members.lookup key members = (Members.lookup key version.members).or
        ((Members.lookup metaKey package.members).bind fun known =>
          Members.lookup key known.members)
  kept : ∀ key, key ≠ metaKey → (∀ item ∈ overrides, ∀ text, ¬IsOverride item key text) →
    Members.lookup key data = Members.lookup key package.members

theorem ordered_readJson {disk : Disk} {path : Text} {value : Json.Value}
    (h : readJson disk path = .ok value) : value.members.Ordered := by
  rw [readJson] at h
  split at h
  · cases h
  · split at h
    · cases h
    · next hparse =>
        cases h
        exact Json.ordered_parse hparse

section Load

variable {disk : Disk} {root : Text} {host : Host} {overrides : List Text}
  {package version : Json.Value}

theorem load_of_read (hpackage : readJson disk (Path.join root packageFile) = .ok package)
    (hversion : readJson disk (Path.join root versionFile) = .ok version) :
    load disk root host overrides =
      (completeMeta (Members.merge [] package.members) version.members).bind fun data =>
        (applyOverrides overrides data).map fun data => ⟨data, root, host⟩ := by
  rw [load, hpackage, hversion]
  dsimp only
  cases completeMeta (Members.merge [] package.members) version.members with
  | error fault => rfl
  | ok data => cases hresult : applyOverrides overrides data <;> simp [hresult, Except.bind, Except.map]

/-- With metadata that fits, what is left of loading a project is to apply the overrides to the two
layers below them. -/
theorem load_of_fits (host : Host) (overrides : List Text)
    (hpackage : readJson disk (Path.join root packageFile) = .ok package)
    (hversion : readJson disk (Path.join root versionFile) = .ok version) (h : MetaFits package) :
    ∃ below, load disk root host overrides =
        ((applyOverrides overrides below).map fun data => ⟨data, root, host⟩) ∧
      Layered package version [] below := by
  have hlookup : ∀ key, Members.lookup key (Members.merge [] package.members) =
      Members.lookup key package.members :=
    Members.lookup_merge_nil (ordered_readJson hpackage)
  rcases completeMeta_cases (Members.merge [] package.members) version.members with
    ⟨-, known, hcomplete, hknown⟩ | ⟨⟨value, hvalue, hobject⟩, -⟩
  · refine ⟨_, by rw [load_of_read hpackage hversion, hcomplete]; rfl, ?_, ?_, ?_⟩
    · intro key text before item after hitem hsplit
      exact absurd hsplit.symm (by simp)
    · intro _
      refine ⟨_, by rw [Members.lookup_insert, if_pos rfl], fun key => ?_⟩
      rw [Members.lookup_merge (ordered_readJson hversion), hknown, hlookup]
    · intro key hkey _
      rw [Members.lookup_insert, if_neg (Ne.symm hkey), hlookup]
  · rw [hlookup] at hvalue
    obtain ⟨known, rfl⟩ := h value hvalue
    exact absurd rfl (hobject known)

theorem load_of_not_fits (hpackage : readJson disk (Path.join root packageFile) = .ok package)
    (hversion : readJson disk (Path.join root versionFile) = .ok version) (h : ¬MetaFits package) :
    load disk root host overrides = .error .metaNotObject := by
  rcases completeMeta_cases (Members.merge [] package.members) version.members with
    ⟨hfits, -⟩ | ⟨-, hcomplete⟩
  · refine absurd ?_ h
    intro value hvalue
    rw [← Members.lookup_merge_nil (ordered_readJson hpackage)] at hvalue
    exact hfits value hvalue
  · rw [load_of_read hpackage hversion, hcomplete]
    rfl

/-- The overrides put the last layer on those below it. -/
theorem Layered.applyOverrides {below data : Members} (hbelow : Layered package version [] below)
    (h : applyOverrides overrides below = .ok data) : Layered package version overrides data where
  overridden := by
    rintro key text before item after hitem rfl hlast
    exact ⟨_, overrideMeans_overrideValue text, lookup_applyOverrides_last h hitem hlast⟩
  completed := by
    intro hother
    rw [lookup_applyOverrides_other h hother]
    exact hbelow.completed (by simp)
  kept := by
    intro key hkey hother
    rw [lookup_applyOverrides_other h hother]
    exact hbelow.kept key hkey (by simp)

theorem load_eq_error_iff {fault : Fault} :
    load disk root host overrides = .error fault ↔ Unloadable disk root overrides fault := by
  constructor
  · intro h
    cases hpackage : readJson disk (Path.join root packageFile) with
    | error cause =>
        rw [load, hpackage] at h
        cases h
        exact .package hpackage
    | ok package =>
        cases hversion : readJson disk (Path.join root versionFile) with
        | error cause =>
            rw [load, hpackage, hversion] at h
            cases h
            exact .version hpackage hversion
        | ok version =>
            by_cases hfits : MetaFits package
            · obtain ⟨below, hload, -⟩ :=
                load_of_fits host overrides hpackage hversion hfits
              rw [hload] at h
              cases happly : applyOverrides overrides below with
              | error cause =>
                  rw [happly] at h
                  cases h
                  obtain ⟨before, item, after, hsplit, hbefore, hitem, rfl⟩ :=
                    applyOverrides_eq_error_iff.1 happly
                  exact .override hpackage hversion hfits hsplit hbefore hitem
              | ok data =>
                  rw [happly] at h
                  cases h
            · rw [load_of_not_fits hpackage hversion hfits] at h
              cases h
              exact .metadata hpackage hversion hfits
  · intro h
    cases h with
    | package h => rw [load, h]
    | version hpackage h => rw [load, hpackage, h]
    | metadata hpackage hversion h => exact load_of_not_fits hpackage hversion h
    | override hpackage hversion hmeta hsplit hbefore h =>
        obtain ⟨below, hload, -⟩ :=
          load_of_fits host overrides hpackage hversion hmeta
        rw [hload, applyOverrides_eq_error_iff.2 ⟨_, _, _, hsplit, hbefore, h, rfl⟩]
        rfl

theorem load_of_loadable (h : Loadable disk root overrides package version) :
    ∃ data, load disk root host overrides = .ok ⟨data, root, host⟩ ∧
      Layered package version overrides data := by
  obtain ⟨below, hload, hbelow⟩ :=
    load_of_fits host overrides h.package_read h.version_read h.meta_fits
  cases happly : applyOverrides overrides below with
  | error fault =>
      obtain ⟨before, item, after, rfl, -, hitem, -⟩ := applyOverrides_eq_error_iff.1 happly
      exact absurd (h.separated item (by simp)) hitem
  | ok data =>
      rw [happly] at hload
      exact ⟨data, hload, hbelow.applyOverrides happly⟩

theorem loadable_of_load {project : Project} (h : load disk root host overrides = .ok project) :
    ∃ package version, Loadable disk root overrides package version := by
  cases hpackage : readJson disk (Path.join root packageFile) with
  | error fault =>
      rw [load_eq_error_iff.2 (.package hpackage)] at h
      cases h
  | ok package =>
      cases hversion : readJson disk (Path.join root versionFile) with
      | error fault =>
          rw [load_eq_error_iff.2 (.version hpackage hversion)] at h
          cases h
      | ok version =>
          have hfits : MetaFits package := by
            refine Classical.byContradiction fun hfits => ?_
            rw [load_of_not_fits hpackage hversion hfits] at h
            cases h
          obtain ⟨below, hload, -⟩ :=
            load_of_fits host overrides hpackage hversion hfits
          rw [hload] at h
          cases happly : applyOverrides overrides below with
          | error fault =>
              rw [happly] at h
              cases h
          | ok data =>
              refine ⟨package, version, hpackage, hversion, hfits, ?_⟩
              intro item hitem
              obtain ⟨key, text, hoverride⟩ := isOverride_of_applyOverrides happly item hitem
              exact hoverride.equals_mem

end Load

/-- **A project is loaded exactly if its layers are well-formed, with the data that the layers give.**
Otherwise it is refused for the first fault: in the package file, in the version file, in the metadata,
or in the overrides from left to right. -/
theorem load_layers (disk : Disk) (root : Text) (host : Host) (overrides : List Text) :
    ((∃ project, load disk root host overrides = .ok project) ↔
      ∃ package version, Loadable disk root overrides package version) ∧
    (∀ fault, load disk root host overrides = .error fault ↔ Unloadable disk root overrides fault) ∧
    ∀ project package version, load disk root host overrides = .ok project →
      Loadable disk root overrides package version →
        project.root = root ∧ project.host = host ∧
          Layered package version overrides project.data := by
  refine ⟨⟨?_, ?_⟩, fun fault => load_eq_error_iff, ?_⟩
  · rintro ⟨project, hload⟩
    exact loadable_of_load hload
  · rintro ⟨package, version, h⟩
    obtain ⟨data, hload, -⟩ := load_of_loadable h
    exact ⟨_, hload⟩
  · intro project package version hload h
    obtain ⟨data, hdata, hlayered⟩ := load_of_loadable h
    rw [hdata] at hload
    cases hload
    exact ⟨rfl, rfl, hlayered⟩

end Project

end SafeTemplate
