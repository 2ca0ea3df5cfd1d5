import BlockTransfer.Proofs.Disk.Writing
import BlockTransfer.Proofs.Patience
import BlockTransfer.Proofs.Receiver.Delivery
import BlockTransfer.Script.DiskRehearsal
import Mathlib.Data.List.Induction

/-!
# What a receiver stores on a disk

The calls of a sink say which files it has been given, each with its bytes so far. On a disk just
these files are found: at every location to which some of them belong, the latest of them, and
everywhere else what stood there before. A call that fails may leave anything in the open file, but
it touches no other.

## Main definitions

* `Receiver.given`: the files that a sink has been given.
* `Disk.Effect`: what comes of an event for a disk onto which files are received.
* `Surroundings.StoresOn`: surroundings with such a disk.
* `Receiver.Stocked`: a disk holds some files.
* `Receiver.Furnished`: a disk holds the files that the sink has been given, unless it has failed.

## Main results

* `Receiver.given_files`: what has been given after some deliveries.
* `Script.World.storesOn_surroundings`: rehearsals with a disk are such surroundings.
* `Receiver.furnished_run`: what a disk holds at every point of a run.
* `Receiver.Stocked.exists_last`: for every file the latest of those that are stored at the same
  path is found.
-/

namespace BlockTransfer

namespace Receiver

/-! ## What a sink is given -/

/-- The deeds of a run in which the sink has not failed. -/
def done (past : List (Act Receiver)) : List Deed :=
  past.filterMap fun a => if a.event.sinkFailed then none else deed a

theorem done_concat (past : List (Act Receiver)) (a : Act Receiver) :
    done (past ++ [a]) = done past ++ (if a.event.sinkFailed then none else deed a).toList := by
  rw [done, List.filterMap_append]
  cases hdone : (if a.event.sinkFailed then none else deed a) <;> simp [done, hdone]

/-- A file as far as it has been given to a sink: its header and its bytes. -/
abbrev Given := Option FileHeader × Bytes

/-- The files that a sink has been given after one more deed, latest first. -/
def give (files : List Given) : Deed → List Given
  | .opened header => (header, []) :: files
  | .stored data =>
    match files with
    | [] => []
    | (header, bytes) :: rest => (header, bytes ++ data) :: rest
  | .accepted _ | .reported | .closed _ => files

/-- The files that a sink has been given, latest first. -/
def given (record : List Deed) : List Given :=
  record.foldl give []

/-- The bytes that belong to a location: those of the latest file that is stored there. -/
def contentsAt (spot : Option FileHeader → Option Location) (files : List Given)
    (place : Location) : Option Bytes :=
  (files.find? fun file => spot file.1 = some place).map Prod.snd

theorem contentsAt_cons {spot : Option FileHeader → Option Location} {header : Option FileHeader}
    {place : Location} (h : spot header = some place) (bytes : Bytes) (files : List Given) :
    contentsAt spot ((header, bytes) :: files) =
      Function.update (contentsAt spot files) place (some bytes) := by
  funext other
  by_cases heq : other = place
  · rw [heq, Function.update_self, contentsAt, List.find?_cons_of_pos (by simpa using h)]
    rfl
  · have hne : ¬spot header = some other := by
      rw [h]
      exact fun hsome => heq (Option.some.inj hsome).symm
    rw [Function.update_of_ne heq, contentsAt, List.find?_cons_of_neg (by simpa using hne)]
    rfl

end Receiver

/-! ## Disks as sinks -/

/-- What a call that fails may leave behind: anything in the open file, and nothing elsewhere. -/
def Disk.Receiving.Spoils (state next : Receiving) : Prop :=
  next = state ∨ ∃ place bytes, state.current = some place ∧
    next = { state with disk := state.disk.overwrite place bytes }

/-- A call is carried out, or it fails. -/
def Disk.Carried (call : Except IoError Unit × Receiving) (reply : Except IoError Unit)
    (state next : Receiving) : Prop :=
  call = (reply, next) ∨ (∃ e, reply = .error e) ∧ state.Spoils next

/-- What comes of an event for a disk onto which files are received: the calls of the sink are
carried out or fail, and nothing else touches the disk. -/
def Disk.Effect (target : Target) (state next : Receiving) : Event → Prop
  | .openFile header reply => Carried ((sink target).openFile state header) reply state next
  | .store data reply => Carried ((sink target).store state data) reply state next
  | .closeFile file reply => Carried ((sink target).closeFile state file) reply state next
  | .silent | .read _ _ | .write _ _ | .report _ | .fetch _ _ _ => next = state

/-- Surroundings in which files are received onto a disk. -/
def Surroundings.StoresOn {ω : Type} (env : Surroundings ω) (target : Disk.Target)
    (view : ω → Disk.Receiving) : Prop :=
  ∀ w w' event, env.Replies w event w' → Disk.Effect target (view w) (view w') event

namespace Disk

variable {target : Target} {state next : Receiving} {header : Option FileHeader} {data : Bytes}
  {file : ReceivedFile}

/-- A file is begun where its path leads. -/
theorem Effect.opened (h : Effect target state next (.openFile header (.ok ()))) :
    ∃ path place disk, target.pathFor header = .ok path ∧
      state.disk.create path = .ok (place, disk) ∧ next = ⟨disk, some place⟩ := by
  obtain hcall | ⟨⟨e, he⟩, -⟩ := h
  · simp only [sink] at hcall
    split at hcall
    · cases hcall
    · rename_i path hpath
      split at hcall
      · cases hcall
      · rename_i place disk hcreate
        cases hcall
        exact ⟨path, place, disk, hpath, hcreate, rfl⟩
  · cases he

/-- Data is added to the open file. -/
theorem Effect.stored (h : Effect target state next (.store data (.ok ()))) :
    ∃ place, state.current = some place ∧
      next = { state with disk := state.disk.append place data } := by
  obtain hcall | ⟨⟨e, he⟩, -⟩ := h
  · simp only [sink] at hcall
    split at hcall
    · cases hcall
    · rename_i place hcurrent
      cases hcall
      exact ⟨place, hcurrent, rfl⟩
  · cases he

theorem Effect.closed (h : Effect target state next (.closeFile file (.ok ()))) :
    next = { state with current := none } := by
  obtain hcall | ⟨⟨e, he⟩, -⟩ := h
  · cases hcall
    rfl
  · cases he

/-- A call that fails may only spoil the open file. -/
theorem Effect.spoils {event : Event} (h : Effect target state next event)
    (hfailed : event.sinkFailed = true) : state.Spoils next := by
  cases event with
  | openFile header reply =>
    cases reply with
    | ok => cases hfailed
    | error e =>
      obtain hcall | ⟨-, hspoils⟩ := h
      · simp only [sink] at hcall
        split at hcall
        · cases hcall
          exact .inl rfl
        · split at hcall
          · cases hcall
            exact .inl rfl
          · cases hcall
      · exact hspoils
  | store data reply =>
    cases reply with
    | ok => cases hfailed
    | error e =>
      obtain hcall | ⟨-, hspoils⟩ := h
      · simp only [sink] at hcall
        split at hcall
        · cases hcall
          exact .inl rfl
        · cases hcall
      · exact hspoils
  | closeFile file reply =>
    cases reply with
    | ok => cases hfailed
    | error e =>
      obtain hcall | ⟨-, hspoils⟩ := h
      · cases hcall
      · exact hspoils
  | silent | read | write | report | fetch => cases hfailed

end Disk

namespace Script.World

variable {setup : Setup Disk.Receiving} {target : Disk.Target}

/-- A call in a rehearsal is carried out unless it is made to fail. -/
theorem carried_call (w : World Disk.Receiving) (call : Call) (entry : Entry)
    (run : Disk.Receiving → Except IoError Unit × Disk.Receiving) :
    Disk.Carried (run w.sink) (w.call setup call entry run).1 w.sink
      (w.call setup call entry run).2.sink := by
  unfold World.call
  dsimp only
  split
  · exact .inr ⟨⟨_, rfl⟩, .inl rfl⟩
  · refine .inl ?_
    dsimp only
    split <;> rfl

/-- In a rehearsal with a disk files are received onto it. -/
theorem storesOn_surroundings (hsink : setup.sink = Disk.sink target) :
    (surroundings setup).StoresOn target World.sink := by
  intro w w' event h
  cases h with
  | silent | read | write => rfl
  | report progress =>
    simp only [surroundings, World.report]
    split <;> rfl
  | fetch file most =>
    simp only [surroundings, World.fetch]
    split <;> rfl
  | openFile header =>
    rw [Disk.Effect, ← hsink]
    exact carried_call w .openFile (.opened header) (setup.sink.openFile · header)
  | store data =>
    rw [Disk.Effect, ← hsink]
    exact carried_call (w.abortIf _) .store (.stored data.length) (setup.sink.store · data)
  | closeFile file =>
    rw [Disk.Effect, ← hsink]
    exact carried_call w .closeFile (.closed file) (setup.sink.closeFile · file)

end Script.World

namespace Receiver

/-! ## What is found on the disk -/

/-- A disk holds some files, latest first, and the open file is the latest of them. -/
structure Stocked (before : Disk) (target : Disk.Target) (files : List Given)
    (state : Disk.Receiving) : Prop where
  became : before.Became state.disk (contentsAt (before.spot? target) files)
  isSome_spot : ∀ file ∈ files, ∃ place, before.spot? target file.1 = some place
  current_eq : ∀ place, state.current = some place →
    ∃ file rest, files = file :: rest ∧ before.spot? target file.1 = some place

/-- A disk holds files that the sink has been told to begin. As long as the sink has not failed
these are just the files that it has been given. -/
def Furnished (before : Disk) (target : Disk.Target) (past : List (Act Receiver))
    (state : Disk.Receiving) : Prop :=
  ∃ files, Stocked before target files state ∧ (∀ file ∈ files, .opened file.1 ∈ done past) ∧
    ((∀ a ∈ past, a.event.sinkFailed = false) → files = given (done past))

section Stocked

variable {before : Disk} {target : Disk.Target} {files : List Given} {record : List Deed}
  {state next : Disk.Receiving} {past : List (Act Receiver)} {s : Receiver} {event : Event}
  {place : Location}

theorem stocked_nil (hcurrent : state.current = none) : Stocked state.disk target [] state where
  became := Disk.became_self state.disk
  isSome_spot file hfile := nomatch hfile
  current_eq place hplace := by
    rw [hcurrent] at hplace
    cases hplace

/-- A file is begun. -/
theorem Stocked.opened {header : Option FileHeader} (h : Stocked before target files state)
    (heffect : Disk.Effect target state next (.openFile header (.ok ()))) :
    Stocked before target (give files (.opened header)) next := by
  obtain ⟨path, place, disk, hpath, hcreate, rfl⟩ := heffect.opened
  obtain ⟨hplace, hbecame⟩ := h.became.create hcreate
  have hspot : before.spot? target header = some place :=
    Disk.spot?_eq_some_iff.mpr ⟨path, hpath, hplace⟩
  refine ⟨?_, ?_, ?_⟩
  · rw [give, contentsAt_cons hspot]
    exact hbecame
  · exact List.forall_mem_cons.mpr ⟨⟨place, hspot⟩, h.isSome_spot⟩
  · rintro place' ⟨⟩
    exact ⟨_, _, rfl, hspot⟩

/-- What is in the open file is replaced. -/
theorem Stocked.overwrite (h : Stocked before target files state)
    (hcurrent : state.current = some place) :
    ∃ header written rest, files = (header, written) :: rest ∧
      state.disk.append place = (fun data => state.disk.overwrite place (written ++ data)) ∧
      ∀ bytes, Stocked before target ((header, bytes) :: rest)
        { state with disk := state.disk.overwrite place bytes } := by
  obtain ⟨⟨header, written⟩, rest, rfl, hspot⟩ := h.current_eq place hcurrent
  have hwritten : contentsAt (before.spot? target) ((header, written) :: rest) place =
      some written := by
    rw [contentsAt_cons hspot, Function.update_self]
  refine ⟨header, written, rest, rfl, funext (h.became.append_eq_overwrite hwritten), ?_⟩
  intro bytes
  refine ⟨?_, ?_, ?_⟩
  · -- The bytes so far are replaced by what they have become.
    have hbecame := h.became.overwrite hwritten bytes
    rw [contentsAt_cons hspot, Function.update_idem] at hbecame
    rw [contentsAt_cons hspot]
    exact hbecame
  · exact List.forall_mem_cons.mpr (List.forall_mem_cons.mp h.isSome_spot)
  · intro place' hplace'
    obtain rfl : place = place' := Option.some.inj (hcurrent.symm.trans hplace')
    exact ⟨_, _, rfl, hspot⟩

/-- Data is stored. -/
theorem Stocked.stored {data : Bytes} (h : Stocked before target files state)
    (heffect : Disk.Effect target state next (.store data (.ok ()))) :
    Stocked before target (give files (.stored data)) next := by
  obtain ⟨place, hcurrent, rfl⟩ := heffect.stored
  obtain ⟨header, written, rest, rfl, happend, hoverwrite⟩ := h.overwrite hcurrent
  rw [happend]
  exact hoverwrite (written ++ data)

theorem Stocked.closed {file : ReceivedFile} (h : Stocked before target files state)
    (heffect : Disk.Effect target state next (.closeFile file (.ok ()))) :
    Stocked before target files next := by
  rw [heffect.closed]
  exact ⟨h.became, h.isSome_spot, nofun⟩

/-- A call that fails may leave anything in the latest file. -/
theorem Stocked.spoilt (h : Stocked before target files state) (hspoils : state.Spoils next) :
    ∃ files', Stocked before target files' next ∧
      ∀ file' ∈ files', ∃ file ∈ files, file.1 = file'.1 := by
  obtain rfl | ⟨place, bytes, hcurrent, rfl⟩ := hspoils
  · exact ⟨files, h, fun file hfile => ⟨file, hfile, rfl⟩⟩
  · obtain ⟨header, written, rest, rfl, -, hoverwrite⟩ := h.overwrite hcurrent
    refine ⟨(header, bytes) :: rest, hoverwrite bytes, ?_⟩
    intro file' hfile'
    rcases List.mem_cons.mp hfile' with rfl | hrest
    · exact ⟨_, List.mem_cons_self, rfl⟩
    · exact ⟨file', List.mem_cons_of_mem _ hrest, rfl⟩

/-- A receiver accepts a block without anything to be seen. -/
theorem ensures_silent_of_acceptance (s : Receiver) :
    (act s).Ensures fun event _ => acceptance s ≠ none → event = .silent := by
  by_cases haccept : acceptance s = none
  · exact Action.ensures_of_forall (fun _ _ h => absurd haccept h) _
  · obtain ⟨accepted, haccept⟩ := Option.ne_none_iff_exists'.mp haccept
    obtain ⟨block, hphase, hnumber, -⟩ := phase_of_acceptance haccept
    rw [act, Party.act, hphase]
    dsimp only
    rw [step, judgeData, if_pos hnumber]
    exact fun _ => rfl

/-- What a receiver does is done on the disk, unless the sink fails. -/
theorem Stocked.of_deed (h : Stocked before target files state)
    (heffect : Disk.Effect target state next event)
    (hsilent : acceptance s ≠ none → event = .silent) (hwell : event.sinkFailed = false) :
    Stocked before target ((deed ⟨s, event⟩).toList.foldl give files) next := by
  cases haccept : acceptance s with
  | some accepted =>
    obtain rfl := hsilent (by rw [haccept]; exact Option.some_ne_none accepted)
    obtain rfl : next = state := heffect
    rw [deed, haccept]
    exact h
  | none =>
    rw [deed_of_acceptance_eq_none haccept]
    cases event with
    | openFile header reply =>
      cases reply with
      | error e => cases hwell
      | ok => exact h.opened heffect
    | store data reply =>
      cases reply with
      | error e => cases hwell
      | ok => exact h.stored heffect
    | closeFile file reply =>
      cases reply with
      | error e => cases hwell
      | ok => exact h.closed heffect
    | silent | read | write | report | fetch =>
      obtain rfl : next = state := heffect
      exact h

/-- A file that is there after a deed was there before, with some bytes, or it is begun. -/
theorem exists_of_mem_give {deed : Deed} {file : Given} (h : file ∈ give files deed) :
    deed = .opened file.1 ∨ ∃ earlier ∈ files, earlier.1 = file.1 := by
  cases deed with
  | opened header =>
    rcases List.mem_cons.mp h with rfl | h
    · exact .inl rfl
    · exact .inr ⟨file, h, rfl⟩
  | stored data =>
    cases files with
    | nil => cases h
    | cons latest rest =>
      rcases List.mem_cons.mp h with rfl | h
      · exact .inr ⟨latest, List.mem_cons_self, rfl⟩
      · exact .inr ⟨file, List.mem_cons_of_mem _ h, rfl⟩
  | accepted | reported | closed => exact .inr ⟨file, h, rfl⟩

/-- A disk stays furnished after one more act. -/
theorem Furnished.concat (h : Furnished before target past state)
    (heffect : Disk.Effect target state next event)
    (hsilent : acceptance s ≠ none → event = .silent) :
    Furnished before target (past ++ [⟨s, event⟩]) next := by
  obtain ⟨files, hstocked, hopened, hgiven⟩ := h
  have hdone := done_concat past ⟨s, event⟩
  cases hfailed : event.sinkFailed with
  | true =>
    -- What has been given is not known any more, but nothing else has been begun.
    obtain ⟨files', hstocked', hfiles'⟩ := hstocked.spoilt (heffect.spoils hfailed)
    refine ⟨files', hstocked', ?_, ?_⟩
    · intro file' hfile'
      obtain ⟨file, hfile, hheader⟩ := hfiles' file' hfile'
      rw [hdone, ← hheader]
      exact List.mem_append_left _ (hopened file hfile)
    · intro hwell
      have hevent := hwell ⟨s, event⟩ (List.mem_append_right _ List.mem_cons_self)
      cases hfailed.symm.trans hevent
  | false =>
    rw [if_neg (Bool.eq_false_iff.mp hfailed)] at hdone
    refine ⟨_, hstocked.of_deed heffect hsilent hfailed, ?_, ?_⟩
    · intro file hfile
      rw [hdone]
      cases hdeed : deed ⟨s, event⟩ with
      | none =>
        rw [hdeed] at hfile
        exact List.mem_append_left _ (hopened file hfile)
      | some deed =>
        rw [hdeed] at hfile
        rcases exists_of_mem_give hfile with rfl | ⟨earlier, hearlier, hheader⟩
        · exact List.mem_append_right _ List.mem_cons_self
        · rw [← hheader]
          exact List.mem_append_left _ (hopened earlier hearlier)
    · intro hwell
      rw [hdone, given, List.foldl_append, ← given,
        hgiven fun a ha => hwell a (List.mem_append_left _ ha)]

/-- At every point of a run the disk is furnished by what the sink has been told. -/
theorem furnished_run {ω : Type} {env : Surroundings ω} {view : ω → Disk.Receiving} {w : ω}
    (henv : env.StoresOn target view) (hcurrent : (view w).current = none) (s : Receiver)
    (acts : Nat) :
    Furnished (view w).disk target (Action.trace env act acts s w)
      (view (Action.run env act acts s w).world) := by
  refine @Action.invariant_run _ _ env act
    (fun past _ w' => Furnished (view w).disk target past (view w')) ?_ acts [] s w
    ⟨[], stocked_nil hcurrent, List.forall_mem_nil _, fun _ => rfl⟩
  intro past s v s' v' hfurnished hstep
  exact hfurnished.concat (henv v v' _ (Action.replies_of_step hstep))
    ((ensures_silent_of_acceptance s).of_step hstep)

/-- Nothing has changed where nothing belongs. -/
theorem Stocked.node?_eq (h : Stocked before target files state)
    (hplace : ∀ file ∈ files, before.spot? target file.1 ≠ some place) :
    state.disk.node? place = before.node? place := by
  have hcontents : contentsAt (before.spot? target) files place = none := by
    rw [contentsAt, List.find?_eq_none.mpr (by simpa using hplace)]
    rfl
  cases h.became.stored_of_eq hcontents with
  | untouched hnode => exact hnode

section Destinations

variable {protocol : Protocol} {destination : String}

/-- Files are opened at places only that the transfer may write to. -/
theorem Stocked.allows (h : Stocked before target files state)
    (htarget : before.target protocol destination = .ok target)
    (hplace : state.current = some place) : before.Allows destination place protocol := by
  obtain ⟨file, rest, -, hspot⟩ := h.current_eq place hplace
  exact Disk.allows_of_spot? htarget hspot

/-- Nothing has changed where the transfer may not write to. -/
theorem Stocked.node?_eq_of_not_allows (h : Stocked before target files state)
    (htarget : before.target protocol destination = .ok target)
    (hplace : ¬before.Allows destination place protocol) :
    state.disk.node? place = before.node? place := by
  refine h.node?_eq ?_
  intro file _ hspot
  exact hplace (Disk.allows_of_spot? htarget hspot)

end Destinations

end Stocked

end Receiver

end BlockTransfer
