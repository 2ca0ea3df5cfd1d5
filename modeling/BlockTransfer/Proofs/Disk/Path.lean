import BlockTransfer.Disk.Path
import Mathlib.Data.List.Basic

/-!
# Names and paths

Whatever name the peer gives to a file, what is left of it is a single component that leads neither
upwards nor nowhere. So the path of a file in a directory has the components of the directory and
that name after them.

## Main definitions

* `Path.Plain`: a name that stands for a file in a directory and for nothing else.

## Main results

* `Path.plain_of_sanitize?`: what is left of a name from the peer is plain.
* `Path.components_join`: the components of the path of a file in a directory.
-/

namespace BlockTransfer.Path

variable {name path directory : String} {part letters more : List Char}

/-- A name that stands for a file in a directory, whatever the directory is: a single component of
a path, which leads neither upwards nor nowhere. -/
structure Plain (name : String) : Prop where
  ne_empty : name ≠ ""
  ne_dot : name ≠ "."
  ne_dots : name ≠ ".."
  slash_notMem : '/' ∉ name.toList

/-! ## Components -/

/-- A text is split at each of its slashes. -/
theorem go_append_slash (part letters more : List Char) :
    split.go part (letters ++ '/' :: more) = split.go part letters ++ split.go [] more := by
  induction letters generalizing part with
  | nil => simp [split.go]
  | cons c letters ih =>
    rw [List.cons_append, split.go, split.go]
    split
    · rw [ih, List.cons_append]
    · exact ih _

/-- A text without slashes is a single part. -/
theorem go_of_notMem (part : List Char) (h : '/' ∉ letters) :
    split.go part letters = [String.ofList (part.reverse ++ letters)] := by
  induction letters generalizing part with
  | nil => rw [split.go, List.append_nil]
  | cons c letters ih =>
    have hc : c ≠ '/' := (List.ne_of_not_mem_cons h).symm
    rw [split.go, if_neg hc, ih _ (List.not_mem_of_not_mem_cons h), List.reverse_cons,
      List.append_assoc]
    rfl

/-- No part has a slash. -/
theorem slash_notMem_of_mem_go (hpart : '/' ∉ part) (h : name ∈ split.go part letters) :
    '/' ∉ name.toList := by
  have hlast : '/' ∉ (String.ofList part.reverse).toList := by
    rw [String.toList_ofList, List.mem_reverse]
    exact hpart
  induction letters generalizing part with
  | nil =>
    rw [split.go, List.mem_singleton] at h
    rw [h]
    exact hlast
  | cons c letters ih =>
    rw [split.go] at h
    split at h
    · -- A part ends here, and the next one is still empty.
      rcases List.mem_cons.mp h with rfl | h
      · exact hlast
      · exact ih List.not_mem_nil h List.not_mem_nil
    · rename_i hc
      have hpart' : '/' ∉ c :: part := List.not_mem_cons_of_ne_of_not_mem (Ne.symm hc) hpart
      refine ih hpart' h ?_
      rw [String.toList_ofList, List.mem_reverse]
      exact hpart'

theorem components_append_slash (path more : String) :
    components (path ++ "/" ++ more) = components path ++ components more := by
  have hsplit : split (path ++ "/" ++ more) = split path ++ split more := by
    rw [split, String.toList_append, String.toList_append, List.append_assoc]
    exact go_append_slash [] path.toList more.toList
  rw [components, hsplit, List.filter_append]
  rfl

/-- A name that is not empty and has no slash is the only component of itself. -/
theorem components_of_notMem (hne : name ≠ "") (h : '/' ∉ name.toList) :
    components name = [name] := by
  have hsplit : split name = [name] := by
    rw [split, go_of_notMem [] h, List.reverse_nil, List.nil_append, String.ofList_toList]
  rw [components, hsplit, List.filter_cons_of_pos (by simpa using hne), List.filter_nil]

/-- A component is not empty and has no slash. -/
theorem of_mem_components (h : name ∈ components path) : name ≠ "" ∧ '/' ∉ name.toList := by
  obtain ⟨hsplit, hne⟩ := List.mem_filter.mp h
  exact ⟨of_decide_eq_true hne, slash_notMem_of_mem_go List.not_mem_nil hsplit⟩

/-! ## Names from the peer -/

theorem exists_append_slash (h : endsInSlash path = true) : ∃ front, path = front ++ "/" := by
  obtain ⟨front, hfront⟩ := List.getLast?_eq_some_iff.mp (eq_of_beq h)
  refine ⟨String.ofList front, ?_⟩
  rw [← String.toList_inj, String.toList_append, String.toList_ofList]
  exact hfront

/-- What is left of a name from the peer stands for a file in a directory. -/
theorem plain_of_sanitize? {given : String} (h : sanitize? given = some name) : Plain name := by
  unfold sanitize? fileName? at h
  split at h
  · rename_i last hlast
    split at h
    · cases h
    · rename_i hdots
      obtain rfl : last = name := Option.some.inj h
      -- The name is one of the components.
      obtain ⟨hmem, hdot⟩ := List.mem_filter.mp (List.mem_of_getLast? hlast)
      obtain ⟨hne, hslash⟩ := of_mem_components hmem
      exact ⟨hne, of_decide_eq_true hdot, hdots, hslash⟩
  · cases h

/-- Directories before the name are left out, however they are written. -/
example : sanitize? "/etc/passwd" = some "passwd" ∧ sanitize? "..\\evil.bin" = some "evil.bin" ∧
    sanitize? "a/b/" = some "b" ∧ sanitize? "a/.." = none := by
  decide

/-! ## Files in a directory -/

/-- The path of a file in a directory is the name of the file behind a slash. -/
theorem exists_join_eq (directory : String) :
    ∃ front, components front = components directory ∧
      (directory ≠ "" → isAbsolute (front ++ "/") = isAbsolute directory) ∧
      ∀ name, join directory name = front ++ "/" ++ name := by
  by_cases hslash : endsInSlash directory = true
  · obtain ⟨front, rfl⟩ := exists_append_slash hslash
    refine ⟨front, ?_, fun _ => rfl, fun name => if_pos hslash⟩
    -- Nothing stands after the last slash.
    have hcomponents := components_append_slash front ""
    rw [String.append_empty] at hcomponents
    rw [hcomponents]
    exact (List.append_nil _).symm
  · refine ⟨directory, rfl, ?_, fun name => if_neg hslash⟩
    intro hne
    unfold isAbsolute
    rw [String.toList_append, List.head?_append_of_ne_nil]
    exact mt String.toList_eq_nil_iff.mp hne

/-- The path of a file in a directory leads through the directory to the name. -/
theorem components_join (directory : String) (hne : name ≠ "") (hslash : '/' ∉ name.toList) :
    components (join directory name) = components directory ++ [name] := by
  obtain ⟨front, hfront, -, hjoin⟩ := exists_join_eq directory
  rw [hjoin, components_append_slash, hfront, components_of_notMem hne hslash]

/-- The path of a file in a directory begins where that of the directory does. -/
theorem isAbsolute_join (hdirectory : directory ≠ "") (name : String) :
    isAbsolute (join directory name) = isAbsolute directory := by
  obtain ⟨front, -, habsolute, hjoin⟩ := exists_join_eq directory
  have hne : (front ++ "/").toList ≠ [] := by
    rw [String.toList_append]
    exact List.append_ne_nil_of_right_ne_nil _ nofun
  rw [hjoin, ← habsolute hdirectory, isAbsolute, String.toList_append,
    List.head?_append_of_ne_nil _ hne, isAbsolute]

/-- The path of a file in a directory has all characters of the name. -/
theorem mem_toList_join (directory : String) {c : Char} (h : c ∈ name.toList) :
    c ∈ (join directory name).toList := by
  obtain ⟨front, -, -, hjoin⟩ := exists_join_eq directory
  rw [hjoin, String.toList_append]
  exact List.mem_append_right _ h

end BlockTransfer.Path
