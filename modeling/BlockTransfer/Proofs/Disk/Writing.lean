import BlockTransfer.Disk.Transfer
import BlockTransfer.Proofs.Disk.Path
import Mathlib.Logic.Function.Basic

/-!
# What writing does to a disk

Files are written one after the other, each at the place that its path leads to. Directories are
neither made nor removed by that, and a file stays as writable as it was, so a path that leads to a
place for a file has led there from the beginning.

## Main definitions

* `Disk.LeadsTo`: what it takes of a path to lead to a place for a file.
* `Disk.Became`: what stands where on a disk to which files have been written.

## Main results

* `Disk.Became.placeFor_eq`: a path that leads to a place for a file has always led there.
* `Disk.Became.create` and `Disk.Became.overwrite`: what creating a file and writing to it does.
* `Disk.placeFor_join`: the path of a file in a directory leads to no place outside of it.
-/

namespace BlockTransfer

variable {name name' : String} {place place' directory : Location}

theorem Location.child_inj :
    place.child name = place'.child name' ↔ place = place' ∧ name = name' := by
  obtain ⟨up, names⟩ := place
  obtain ⟨up', names'⟩ := place'
  constructor
  · intro h
    obtain ⟨rfl, hnames⟩ := Location.mk.inj h
    obtain ⟨rfl, hname⟩ := List.append_inj' hnames rfl
    exact ⟨rfl, List.singleton_inj.mp hname⟩
  · rintro ⟨h, rfl⟩
    rw [h]

/-- A name in a directory is not the working directory or above it. -/
theorem Location.names_child_ne_nil (place : Location) (name : String) :
    (place.child name).names ≠ [] :=
  List.append_ne_nil_of_right_ne_nil _ (List.cons_ne_nil name [])

namespace Disk

variable {disk before after : Disk} {path : String} {above : List String} {start : Location}

/-! ## Places for files -/

/-- Whether a file may be written under a name in a directory. -/
def grants (disk : Disk) (directory : Location) (name : String) : Bool :=
  match disk.node? (directory.child name) with
  | none => disk.isOpenToAll directory
  | some node => node.isWritable

/-- A path leads to a place for a file, under a name in a directory. -/
structure LeadsTo (disk : Disk) (path : String) (directory : Location) (name : String) : Prop where
  malformed_eq : malformed? path = none
  exists_above : ∃ above, Path.components path = above ++ [name] ∧
    disk.follow (disk.start path) above = .ok directory
  isDirectory_eq : disk.isDirectory directory = true
  ne_dots : ¬(name = "." ∨ name = ".." ∨ Path.endsInSlash path = true)
  length_le : ¬Path.longestName < (Utf8.encode name).length
  grants_eq : disk.grants directory name = true

/-- Nothing goes wrong if no check fails. -/
theorem ite_error_eq_ok {ε α : Type} {p : Prop} [Decidable p] {e : ε} {x : Except ε α} {a : α} :
    (if p then .error e else x) = .ok a ↔ ¬p ∧ x = .ok a := by
  by_cases h : p <;> simp [h]

/-- A path that can be followed up to its last name leads to a place for a file if the name is one
under which a file may be written. -/
theorem placeFor_of_follow (hmalformed : malformed? path = none)
    (hcomponents : Path.components path = above ++ [name])
    (hfollow : disk.follow (disk.start path) above = .ok directory) :
    disk.placeFor path = .ok place ↔
      disk.LeadsTo path directory name ∧ place = directory.child name := by
  simp only [placeFor, hmalformed, hcomponents, List.reverse_append, List.reverse_cons,
    List.reverse_nil, List.nil_append, List.cons_append, List.reverse_reverse, hfollow,
    ite_error_eq_ok, not_not]
  constructor
  · rintro ⟨hdirectory, hdots, hlength, hplace⟩
    have hgrants : disk.grants directory name = true ∧ place = directory.child name := by
      unfold grants
      split at hplace
      · -- Nothing stands there yet.
        rename_i hnode
        rw [hnode]
        split at hplace
        · rename_i hopen
          exact ⟨hopen, (Except.ok.inj hplace).symm⟩
        · cases hplace
      · cases hplace
      · -- What stands there is no directory.
        rename_i node _ hnode
        rw [hnode]
        split at hplace
        · rename_i hwritable
          exact ⟨hwritable, (Except.ok.inj hplace).symm⟩
        · cases hplace
    exact ⟨⟨hmalformed, ⟨above, hcomponents, hfollow⟩, hdirectory, hdots, hlength, hgrants.1⟩,
      hgrants.2⟩
  · rintro ⟨h, rfl⟩
    have hgrants := h.grants_eq
    refine ⟨h.isDirectory_eq, h.ne_dots, h.length_le, ?_⟩
    unfold grants at hgrants
    split at hgrants
    · rename_i hnode
      rw [hnode]
      exact if_pos hgrants
    · rename_i node hnode
      rw [hnode]
      cases node with
      | directory => cases hgrants
      | file => exact if_pos hgrants
      | nullDevice => rfl

theorem placeFor_eq_ok_iff :
    disk.placeFor path = .ok place ↔
      ∃ directory name, disk.LeadsTo path directory name ∧ place = directory.child name := by
  constructor
  · intro h
    cases hmalformed : malformed? path with
    | some e => simp [placeFor, hmalformed] at h
    | none =>
      obtain hnil | ⟨above, name, hcomponents⟩ := List.eq_nil_or_concat' (Path.components path)
      · simp [placeFor, hmalformed, hnil] at h
      · cases hfollow : disk.follow (disk.start path) above with
        | error e => simp [placeFor, hmalformed, hcomponents, hfollow] at h
        | ok directory =>
          exact ⟨directory, name, (placeFor_of_follow hmalformed hcomponents hfollow).mp h⟩
  · rintro ⟨directory, name, h, hplace⟩
    obtain ⟨above, hcomponents, hfollow⟩ := h.exists_above
    exact (placeFor_of_follow h.malformed_eq hcomponents hfollow).mpr ⟨h, hplace⟩

/-! ## Disks that have been written to -/

/-- What stands at a location of a disk to which files have been written. -/
inductive Stored (before after : Disk) (place : Location) : Option Bytes → Prop
  /-- Nothing was written there. -/
  | untouched (hnode : after.node? place = before.node? place) : Stored before after place none
  /-- A file was written there, which a path has led to from the beginning. -/
  | file {path : String} {bytes : Bytes} {modified : Int} {mode : Nat}
      (hplace : before.placeFor path = .ok place)
      (hnode : after.node? place = some (.file bytes modified mode)) :
      Stored before after place (some bytes)
  /-- The null device stands there, in which nothing can be found again. -/
  | device {path : String} {bytes : Bytes} (hplace : before.placeFor path = .ok place)
      (hbefore : before.node? place = some .nullDevice)
      (hafter : after.node? place = some .nullDevice) : Stored before after place (some bytes)

/-- A disk has become another by the writing of files; the contents say what was written where. -/
structure Became (before after : Disk) (contents : Location → Option Bytes) : Prop where
  depth_eq : after.depth = before.depth
  stored : ∀ place, Stored before after place (contents place)

/-- A file with the given bytes is found at a location, unless the null device has always been
there. -/
def Keeps (before after : Disk) (place : Location) (bytes : Bytes) : Prop :=
  (∃ modified mode, after.node? place = some (.file bytes modified mode)) ∨
    before.node? place = some .nullDevice ∧ after.node? place = some .nullDevice

theorem Stored.keeps {bytes : Bytes} (h : Stored before after place (some bytes)) :
    before.Keeps after place bytes := by
  cases h with
  | @file _ _ modified mode _ hnode => exact .inl ⟨modified, mode, hnode⟩
  | device _ hbefore hafter => exact .inr ⟨hbefore, hafter⟩

theorem became_self (disk : Disk) : Became disk disk fun _ => none :=
  ⟨rfl, fun _ => .untouched rfl⟩

section Became

variable {contents : Location → Option Bytes} {names : List String}

theorem Became.stored_of_eq (h : before.Became after contents) {bytes : Option Bytes}
    (hcontents : contents place = bytes) : Stored before after place bytes :=
  hcontents ▸ h.stored place

/-- No directories are made. -/
theorem Became.isDirectory_eq (h : before.Became after contents)
    (hplace : after.isDirectory place = true) : before.isDirectory place = true := by
  have hnode : after.node? place = some .directory := eq_of_beq hplace
  obtain ⟨bytes, hcontents⟩ : ∃ bytes, contents place = bytes := ⟨_, rfl⟩
  cases h.stored_of_eq hcontents with
  | untouched hsame =>
    rw [isDirectory, ← hsame]
    exact hplace
  | file _ hfile =>
    rw [hnode] at hfile
    cases hfile
  | device _ _ hdevice =>
    rw [hnode] at hdevice
    cases hdevice

/-- The way to a directory begins in a directory. -/
theorem isDirectory_of_follow (h : disk.follow start names = .ok place)
    (hplace : disk.isDirectory place = true) : disk.isDirectory start = true := by
  cases names with
  | nil =>
    cases h
    exact hplace
  | cons name names =>
    by_contra hstart
    rw [follow, List.foldlM_cons, enter, if_pos hstart] at h
    cases h

/-- A step into a directory was possible before. -/
theorem Became.enter_eq (h : before.Became after contents)
    (henter : after.enter start name = .ok place) (hplace : after.isDirectory place = true) :
    before.enter start name = .ok place := by
  have hdirectory := h.isDirectory_eq hplace
  simp only [enter, ite_error_eq_ok, not_not] at henter ⊢
  obtain ⟨hstart, henter⟩ := henter
  refine ⟨h.isDirectory_eq hstart, ?_⟩
  split
  · rename_i hdot
    rwa [if_pos hdot] at henter
  · rename_i hdot
    rw [if_neg hdot] at henter
    split
    · rename_i hdots
      rwa [if_pos hdots, parent, h.depth_eq] at henter
    · rename_i hdots
      rw [if_neg hdots, ite_error_eq_ok] at henter
      rw [ite_error_eq_ok]
      refine ⟨henter.1, ?_⟩
      obtain ⟨-, henter⟩ := henter
      split at henter
      · -- The directory that is entered stood there before.
        obtain rfl := Except.ok.inj henter
        rw [if_pos]
        rw [eq_of_beq hdirectory]
        rfl
      · cases henter

/-- The way to a directory was open before. -/
theorem Became.follow_eq (h : before.Became after contents)
    (hfollow : after.follow start names = .ok place) (hplace : after.isDirectory place = true) :
    before.follow start names = .ok place := by
  induction names generalizing start with
  | nil => exact hfollow
  | cons name names ih =>
    rw [follow, List.foldlM_cons] at hfollow ⊢
    cases hnext : after.enter start name with
    | error e =>
      rw [hnext] at hfollow
      cases hfollow
    | ok next =>
      rw [hnext] at hfollow
      rw [h.enter_eq hnext (isDirectory_of_follow hfollow hplace)]
      exact ih hfollow

/-- A file that may be written could be written before. -/
theorem Became.grants_eq (h : before.Became after contents)
    (hgrants : after.grants directory name = true) : before.grants directory name = true := by
  have hplace {path : String} (hplace : before.placeFor path = .ok (directory.child name)) :
      before.grants directory name = true := by
    obtain ⟨directory', name', hleads, hchild⟩ := placeFor_eq_ok_iff.mp hplace
    obtain ⟨rfl, rfl⟩ := Location.child_inj.mp hchild
    exact hleads.grants_eq
  obtain ⟨bytes, hcontents⟩ : ∃ bytes, contents (directory.child name) = bytes := ⟨_, rfl⟩
  cases h.stored_of_eq hcontents with
  | untouched hsame =>
    rwa [grants, hsame, isOpenToAll, h.depth_eq] at hgrants
  | file hfile => exact hplace hfile
  | device hdevice => exact hplace hdevice

/-- A path that leads to a place for a file has led there from the beginning. -/
theorem Became.placeFor_eq (h : before.Became after contents)
    (hplace : after.placeFor path = .ok place) : before.placeFor path = .ok place := by
  obtain ⟨directory, name, hleads, rfl⟩ := placeFor_eq_ok_iff.mp hplace
  obtain ⟨above, hcomponents, hfollow⟩ := hleads.exists_above
  rw [start, h.depth_eq] at hfollow
  have hfollow' := h.follow_eq hfollow hleads.isDirectory_eq
  refine placeFor_eq_ok_iff.mpr ⟨directory, name, ?_, rfl⟩
  exact ⟨hleads.malformed_eq, ⟨above, hcomponents, hfollow'⟩,
    h.isDirectory_eq hleads.isDirectory_eq, hleads.ne_dots, hleads.length_le,
    h.grants_eq hleads.grants_eq⟩

/-- What is written at one place leaves all others as they were. -/
theorem Became.update (h : before.Became after contents) {bytes : Bytes}
    (hdepth : disk.depth = after.depth)
    (hothers : ∀ other ≠ place, disk.node? other = after.node? other)
    (hplace : Stored before disk place (some bytes)) :
    before.Became disk (Function.update contents place (some bytes)) := by
  refine ⟨hdepth.trans h.depth_eq, ?_⟩
  intro other
  by_cases heq : other = place
  · rw [heq, Function.update_self]
    exact hplace
  · have hnode := hothers other heq
    rw [Function.update_of_ne heq]
    obtain ⟨written, hcontents⟩ : ∃ written, contents other = written := ⟨_, rfl⟩
    rw [hcontents]
    cases h.stored_of_eq hcontents with
    | untouched hsame => exact .untouched (hnode.trans hsame)
    | file hfile hbytes => exact .file hfile (hnode.trans hbytes)
    | device hdevice hbefore hafter => exact .device hdevice hbefore (hnode.trans hafter)

theorem names_ne_nil_of_placeFor (h : disk.placeFor path = .ok place) : place.names ≠ [] := by
  obtain ⟨directory, name, -, rfl⟩ := placeFor_eq_ok_iff.mp h
  exact directory.names_child_ne_nil name

/-- A file is created, empty, where its path has led from the beginning. -/
theorem Became.create (h : before.Became after contents)
    (hcreate : after.create path = .ok (place, disk)) :
    before.placeFor path = .ok place ∧
      before.Became disk (Function.update contents place (some [])) := by
  unfold Disk.create at hcreate
  split at hcreate
  · cases hcreate
  · rename_i place' hplace'
    have hplace := h.placeFor_eq hplace'
    -- A file is put there, whether or not there was one before.
    have hput (mode : Nat) : before.Became (after.put place' (.file [] 0 mode))
        (Function.update contents place' (some [])) := by
      refine h.update rfl (fun other hne => node?_put_of_ne after _ hne) ?_
      exact .file hplace (node?_put_self after _ (names_ne_nil_of_placeFor hplace))
    split at hcreate
    · rename_i hnode
      obtain ⟨rfl, rfl⟩ := Prod.mk.inj (Except.ok.inj hcreate)
      -- The device has been there from the beginning.
      have hbefore : before.node? place' = some .nullDevice := by
        obtain ⟨written, hcontents⟩ : ∃ written, contents place' = written := ⟨_, rfl⟩
        cases h.stored_of_eq hcontents with
        | untouched hsame => exact hsame.symm.trans hnode
        | file _ hfile =>
          rw [hnode] at hfile
          cases hfile
        | device _ hbefore => exact hbefore
      exact ⟨hplace, h.update rfl (fun _ _ => rfl) (.device hplace hbefore hnode)⟩
    · obtain ⟨rfl, rfl⟩ := Prod.mk.inj (Except.ok.inj hcreate)
      exact ⟨hplace, hput _⟩
    · obtain ⟨rfl, rfl⟩ := Prod.mk.inj (Except.ok.inj hcreate)
      exact ⟨hplace, hput _⟩

/-- Replaces what is in the file at a location. -/
def overwrite (disk : Disk) (place : Location) (bytes : Bytes) : Disk :=
  match disk.node? place with
  | some (.file _ modified mode) => disk.put place (.file bytes modified mode)
  | _ => disk

/-- What has been written at a place is replaced. -/
theorem Became.overwrite (h : before.Became after contents) {written : Bytes}
    (hcontents : contents place = some written) (bytes : Bytes) :
    before.Became (after.overwrite place bytes)
      (Function.update contents place (some bytes)) := by
  unfold Disk.overwrite
  cases h.stored_of_eq hcontents with
  | file hplace hnode =>
    rw [hnode]
    refine h.update rfl (fun other hne => node?_put_of_ne after _ hne) ?_
    exact .file hplace (node?_put_self after _ (names_ne_nil_of_placeFor hplace))
  | device hplace hbefore hafter =>
    rw [hafter]
    exact h.update rfl (fun _ _ => rfl) (.device hplace hbefore hafter)

/-- To add data is to replace what has been written by that and the data. -/
theorem Became.append_eq_overwrite (h : before.Became after contents) {written : Bytes}
    (hcontents : contents place = some written) (data : Bytes) :
    after.append place data = after.overwrite place (written ++ data) := by
  unfold Disk.append Disk.overwrite
  cases h.stored_of_eq hcontents with
  | file _ hnode => rw [hnode]
  | device _ _ hafter => rw [hafter]

end Became

/-! ## Destinations -/

theorem of_malformed?_eq_none (h : malformed? path = none) : path ≠ "" ∧ '\x00' ∉ path.toList := by
  unfold malformed? at h
  split at h
  · cases h
  · rename_i hnul
    split at h
    · cases h
    · rename_i hempty
      exact ⟨fun heq => hempty (by rw [heq]; rfl), fun hmem => hnul (by simpa using hmem)⟩

theorem follow_of_resolve {node : Node} (h : disk.resolve path = .ok (place, node)) :
    malformed? path = none ∧ disk.follow (disk.start path) (Path.components path) = .ok place := by
  unfold resolve at h
  split at h
  · cases h
  · rename_i hmalformed
    split at h
    · cases h
    · rename_i place' hfollow
      refine ⟨hmalformed, ?_⟩
      split at h
      · cases h
      · cases h
        exact hfollow
      · split at h
        · cases h
        · cases h
          exact hfollow

/-- The path of a file in a directory leads to that name in the directory and to no place outside of
it. -/
theorem placeFor_join {destination : String} {node : Node}
    (hresolve : disk.resolve destination = .ok (directory, node)) (hname : Path.Plain name)
    (h : disk.placeFor (Path.join destination name) = .ok place) :
    place = directory.child name ∧ '\x00' ∉ name.toList := by
  obtain ⟨hmalformed, hfollow⟩ := follow_of_resolve hresolve
  obtain ⟨directory', name', hleads, rfl⟩ := placeFor_eq_ok_iff.mp h
  obtain ⟨above, hcomponents, hfollow'⟩ := hleads.exists_above
  -- The path goes through the directory.
  rw [Path.components_join destination hname.ne_empty hname.slash_notMem] at hcomponents
  obtain ⟨rfl, hlast⟩ := List.append_inj' hcomponents rfl
  have hne := (of_malformed?_eq_none hmalformed).1
  rw [start, Path.isAbsolute_join hne, ← start, hfollow] at hfollow'
  obtain rfl := Except.ok.inj hfollow'
  obtain rfl := List.singleton_inj.mp hlast
  refine ⟨rfl, ?_⟩
  exact mt (Path.mem_toList_join destination) (of_malformed?_eq_none hleads.malformed_eq).2

theorem exists_resolve_of_leadsToDirectory (h : disk.leadsToDirectory path = true) :
    ∃ directory, disk.resolve path = .ok (directory, .directory) := by
  unfold leadsToDirectory at h
  split at h
  · rename_i directory hresolve
    exact ⟨directory, hresolve⟩
  · cases h

/-- The locations that a transfer to a destination may write to: the destination itself, or a name
in the directory that it leads to. -/
def Allows (disk : Disk) (destination : String) (place : Location) : Protocol → Prop
  | .xmodem => disk.placeFor destination = .ok place
  | .ymodem => ∃ directory name, disk.resolve destination = .ok (directory, .directory) ∧
    Path.Plain name ∧ '\x00' ∉ name.toList ∧ place = directory.child name ∧
    disk.placeFor (Path.join destination name) = .ok place

/-- The location at which a received file is stored. -/
def spot? (disk : Disk) (target : Target) (header : Option FileHeader) : Option Location :=
  match target.pathFor header with
  | .error _ => none
  | .ok path => (disk.placeFor path).toOption

section Destinations

variable {target : Target} {header header' : Option FileHeader} {protocol : Protocol}
  {destination : String}

theorem spot?_eq_some_iff : disk.spot? target header = some place ↔
    ∃ path, target.pathFor header = .ok path ∧ disk.placeFor path = .ok place := by
  unfold spot?
  cases target.pathFor header with
  | error e => simp
  | ok path => cases hplace : disk.placeFor path <;> simp [hplace, Except.toOption]

/-- A file that is stored in a directory has a header with a name of which something is left. -/
theorem Target.pathFor_directory_eq_ok_iff :
    (Target.directory destination).pathFor header = .ok path ↔
      ∃ known name, header = some known ∧ Path.sanitize? known.name = some name ∧
        path = Path.join destination name := by
  cases header with
  | none => simp [Target.pathFor]
  | some known => cases hname : Path.sanitize? known.name <;> simp [Target.pathFor, hname, eq_comm]

/-- A file in a directory is stored under what is left of the name from the peer. -/
theorem exists_name_of_spot? {node : Node}
    (hresolve : disk.resolve destination = .ok (directory, node))
    (h : disk.spot? (.directory destination) header = some place) :
    ∃ name, (Target.directory destination).pathFor header = .ok (Path.join destination name) ∧
      Path.Plain name ∧ '\x00' ∉ name.toList ∧ place = directory.child name ∧
      disk.placeFor (Path.join destination name) = .ok place := by
  obtain ⟨path, hpath, hplace⟩ := spot?_eq_some_iff.mp h
  obtain ⟨known, name, -, hname, rfl⟩ := Target.pathFor_directory_eq_ok_iff.mp hpath
  have hplain := Path.plain_of_sanitize? hname
  obtain ⟨rfl, hnul⟩ := placeFor_join hresolve hplain hplace
  exact ⟨name, hpath, hplain, hnul, rfl, hplace⟩

/-- A single file is received at the destination, and a batch into it, which is a directory then. -/
theorem of_target_eq_ok (h : disk.target protocol destination = .ok target) :
    protocol = .xmodem ∧ target = .file destination ∨
      protocol = .ymodem ∧ target = .directory destination ∧
        ∃ directory, disk.resolve destination = .ok (directory, .directory) := by
  unfold Disk.target at h
  cases protocol with
  | xmodem => exact .inl ⟨rfl, (Except.ok.inj h).symm⟩
  | ymodem =>
    dsimp only at h
    split at h
    · rename_i hdirectory
      exact .inr ⟨rfl, (Except.ok.inj h).symm, exists_resolve_of_leadsToDirectory hdirectory⟩
    · cases h

/-- A file is stored at a location that the transfer may write to. -/
theorem allows_of_spot? (htarget : disk.target protocol destination = .ok target)
    (h : disk.spot? target header = some place) : disk.Allows destination place protocol := by
  obtain ⟨rfl, rfl⟩ | ⟨rfl, rfl, directory, hresolve⟩ := of_target_eq_ok htarget
  · obtain ⟨path, hpath, hplace⟩ := spot?_eq_some_iff.mp h
    cases hpath
    exact hplace
  · obtain ⟨name, -, hplain, hnul, hchild, hplace⟩ := exists_name_of_spot? hresolve h
    exact ⟨directory, name, hresolve, hplain, hnul, hchild, hplace⟩

end Destinations

end Disk

end BlockTransfer
