import BlockTransfer.Proofs.Receiver.Course
import BlockTransfer.Proofs.Sender.Course

/-!
# How runs end

A party that gives up tells its peer, by writing the cancel signal twice, unless the channel failed,
the peer has cancelled, or nothing was exchanged yet. This is the last thing that it does, and
nothing depends on it any more. The session of a party that has come to its end tells how it ended.

## Main definitions

* `Event.cancels`: the cancel signal is written twice.
* `Announced`: the endings of which the peer is told.
* `Party.Concludes`: what is known of a run and its end.

## Main results

* `Party.stands_trace`: where a party stands, at every point of its run.
* `concludes_run`: how the runs of senders and receivers end.
-/

namespace BlockTransfer

/-- The cancel signal is written twice. -/
def Event.cancels : Event → Bool
  | .write data _ => data = [Control.can.byte, Control.can.byte]
  | _ => false

/-- An ending of which the peer is told. -/
inductive Announced : Ending → Prop
  | aborted : Announced (.ok .aborted)
  | timeout (stage : Stage) (attempts : Nat) : Announced (.error (.timeout stage attempts))
  | file (e : IoError) : Announced (.error (.file e))
  | outOfSequence (expected received : UInt8) :
    Announced (.error (.outOfSequence expected received))
  | invalidHeader (cause : HeaderError) : Announced (.error (.invalidHeader cause))
  | streamCorrupted (cause : FrameError) : Announced (.error (.streamCorrupted cause))

/-- The peer is told of an error if the error is one that it is to be told of. -/
theorem announced_error_iff {e : TransferError} : Announced (.error e) ↔ e.notifiesPeer = true := by
  constructor
  · rintro ⟨⟩ <;> rfl
  · intro h
    cases e with
    | timeout stage attempts => exact .timeout stage attempts
    | file e => exact .file e
    | outOfSequence expected received => exact .outOfSequence expected received
    | invalidHeader cause => exact .invalidHeader cause
    | streamCorrupted cause => exact .streamCorrupted cause
    | peerCancelled | channel | shortWrite | invalidArgument => cases h

/-- The point of its life at which a session comes to an ending. -/
def lastState : Ending → SessionState
  | .ok (.completed _) => .done
  | .ok .aborted => .aborted
  | .error _ => .failed

/-- The point of its life at which a session is left by an ending, if the transfer was accepted or
was not. -/
def LeftAt (accepted : Prop) (ending : Ending) (state : SessionState) : Prop :=
  accepted ∧ state = lastState ending ∨
    ¬accepted ∧ state = .init ∧ ∃ text, ending = .error (.invalidArgument text)

namespace LeftAt

variable {accepted : Prop} {ending : Ending} {state : SessionState}

theorem done_iff (h : LeftAt accepted ending state) :
    state = .done ↔ ∃ summary, ending = .ok (.completed summary) := by
  rcases h with ⟨-, rfl⟩ | ⟨-, rfl, text, rfl⟩
  · rcases ending with e | summary | _ <;> simp [lastState]
  · simp

theorem aborted_iff (h : LeftAt accepted ending state) :
    state = .aborted ↔ ending = .ok .aborted := by
  rcases h with ⟨-, rfl⟩ | ⟨-, rfl, text, rfl⟩
  · rcases ending with e | summary | _ <;> simp [lastState]
  · simp

theorem failed_iff (h : LeftAt accepted ending state) :
    state = .failed ↔ accepted ∧ ∃ e, ending = .error e := by
  rcases h with ⟨haccepted, rfl⟩ | ⟨hrejected, rfl, text, rfl⟩
  · rcases ending with e | summary | _ <;> simp [lastState, haccepted]
  · simp [hrejected]

theorem init_iff (h : LeftAt accepted ending state) : state = .init ↔ ¬accepted := by
  rcases h with ⟨haccepted, rfl⟩ | ⟨hrejected, rfl, text, rfl⟩
  · rcases ending with e | summary | _ <;> simp [lastState, haccepted]
  · simp [hrejected]

theorem exists_text (h : LeftAt accepted ending state) (hrejected : ¬accepted) :
    ∃ text, ending = .error (.invalidArgument text) := by
  rcases h with ⟨haccepted, -⟩ | ⟨-, -, htext⟩
  · exact absurd haccepted hrejected
  · exact htext

end LeftAt

namespace Action

variable {σ ω : Type} {env : Surroundings ω} {act : σ → Action σ}

/-- A run comes to its end with an act that stops. -/
theorem act_eq_stop_of_ending {acts : Nat} {s : σ} {w : ω} {ending : Ending}
    (h : (run env act acts s w).ending = some ending) :
    act (run env act acts s w).state = .stop ending := by
  induction acts generalizing s w with
  | zero => cases h
  | succ acts ih =>
    rw [run] at h ⊢
    cases hstep : act s with
    | stop ending' =>
      rw [hstep] at h
      cases h
      exact hstep
    | _ =>
      rw [hstep] at h
      exact ih h

end Action

namespace Party

variable {δ φ : Type}

/-! ## Acts that do not stop -/

theorem unlessAborted_ne_stop {s : Party δ φ} {act : Action (Party δ φ)} {ending : Ending}
    (h : act ≠ .stop ending) : s.unlessAborted act ≠ .stop ending := by
  unfold unlessAborted
  split
  · exact nofun
  · exact h

theorem listen_ne_stop {s : Party δ φ} {task : Line.Task} {again : Line.Task → φ}
    {heard : Option Bytes → Party δ φ → Party δ φ} {ending : Ending} :
    s.listen task again heard ≠ .stop ending := by
  unfold listen
  split <;> exact nofun

/-! ## Where a party stands -/

/-- What an act of a party comes to, as far as the end of its run is concerned. The first act finds
out whether the transfer is `accepted`. -/
inductive Fares (accepted : Prop) (event : Event) : Party δ φ → Prop
  | goes (haccepted : accepted) (s : Party δ φ) (step : φ) : Fares accepted event (s.goto step)
  | fails (haccepted : accepted) (s : Party δ φ) (e : TransferError) :
    Fares accepted event (s.fail e)
  | completes (haccepted : accepted) (s : Party δ φ) : Fares accepted event s.complete
  | aborts (haccepted : accepted) (s : Party δ φ) : Fares accepted event s.abort
  | rejects (hrejected : ¬accepted) {s : Party δ φ} (text : String) (hevent : event = .silent)
      (hstate : s.session.state = .init) :
    Fares accepted event (s.reject (.invalidArgument text))

/-- Where a party stands after some acts. -/
inductive Stands (accepted : Prop) : List (Act (Party δ φ)) → Party δ φ → Prop
  /-- It goes on. -/
  | doing {past : List (Act (Party δ φ))} {s : Party δ φ} {step : φ}
      (hphase : s.phase = .doing step) (hquiet : ∀ a ∈ past, a.event.cancels = false)
      (hbegun : past = [] ∨ accepted) :
    Stands accepted past s
  /-- It is about to tell its peer that it gives up. -/
  | cancelling {past : List (Act (Party δ φ))} {s : Party δ φ} {ending : Ending}
      (hphase : s.phase = .cancelling ending) (hquiet : ∀ a ∈ past, a.event.cancels = false)
      (haccepted : accepted) (hannounced : Announced ending)
      (hstate : s.session.state = lastState ending) : Stands accepted past s
  /-- It has told its peer that it gives up. -/
  | told {past : List (Act (Party δ φ))} {a : Act (Party δ φ)} {s : Party δ φ} {ending : Ending}
      (hphase : s.phase = .over ending) (hquiet : ∀ a ∈ past, a.event.cancels = false)
      (hcancels : a.event.cancels = true) (hbefore : a.state.phase = .cancelling ending)
      (hsession : a.state.session = s.session) (haccepted : accepted)
      (hannounced : Announced ending) (hstate : s.session.state = lastState ending) :
    Stands accepted (past ++ [a]) s
  /-- It has come to an end of which it does not tell its peer. -/
  | silent {past : List (Act (Party δ φ))} {s : Party δ φ} {ending : Ending}
      (hphase : s.phase = .over ending) (hquiet : ∀ a ∈ past, a.event.cancels = false)
      (haccepted : accepted) (hannounced : ¬Announced ending)
      (hstate : s.session.state = lastState ending) : Stands accepted past s
  /-- It has refused to begin. -/
  | rejected {past : List (Act (Party δ φ))} {s : Party δ φ} {text : String}
      (hphase : s.phase = .over (.error (.invalidArgument text)))
      (hsilent : ∀ a ∈ past, a.event = .silent) (hrejected : ¬accepted)
      (hstate : s.session.state = .init) : Stands accepted past s

section Stands

variable {accepted : Prop} {past : List (Act (Party δ φ))} {s next : Party δ φ} {event : Event}

/-- A party that fails tells its peer of the error or not. -/
theorem stands_fail (hquiet : ∀ a ∈ past, a.event.cancels = false) (haccepted : accepted)
    (s : Party δ φ) (e : TransferError) : Stands accepted past (s.fail e) := by
  by_cases hnotifies : e.notifiesPeer
  · exact .cancelling (if_pos hnotifies) hquiet haccepted (announced_error_iff.mpr hnotifies) rfl
  · exact .silent (if_neg hnotifies) hquiet haccepted (mt announced_error_iff.mp hnotifies) rfl

/-- Where a party stands after an act of its own. -/
theorem Fares.stands (h : Fares accepted event next)
    (hquiet : ∀ a ∈ past, a.event.cancels = false) (hbegun : past = [] ∨ accepted)
    (hevent : event.cancels = false) : Stands accepted (past ++ [⟨s, event⟩]) next := by
  have hquiet' : ∀ a ∈ past ++ [⟨s, event⟩], a.event.cancels = false :=
    List.forall_mem_append.mpr ⟨hquiet, List.forall_mem_singleton.mpr hevent⟩
  cases h with
  | goes haccepted s step => exact .doing rfl hquiet' (.inr haccepted)
  | fails haccepted s e => exact stands_fail hquiet' haccepted s e
  | completes haccepted s => exact .silent rfl hquiet' haccepted nofun rfl
  | aborts haccepted s => exact .cancelling rfl hquiet' haccepted .aborted rfl
  | rejects hrejected text hsilent hstate =>
    -- Nothing has been done before.
    have hpast := hbegun.resolve_right hrejected
    refine .rejected rfl ?_ hrejected hstate
    rw [hpast]
    exact List.forall_mem_singleton.mpr hsilent

variable {own : Party δ φ → φ → Action (Party δ φ)} {good : Party δ φ → φ → Prop}

/-- Where a party stands, at every point of its run. -/
theorem stands_trace
    (hown : ∀ s step, s.phase = .doing step → good s step → (own s step).Ensures fun event next =>
      event.cancels = false ∧ Fares accepted event next ∧
        ∀ step', next.phase = .doing step' → good next step')
    {s : Party δ φ} {first : φ} (hphase : s.phase = .doing first) (hgood : good s first)
    {ω : Type} (env : Surroundings ω) (acts : Nat) (w : ω) :
    Stands accepted (Action.trace env (fun s => act (own s) s) acts s w)
      (Action.run env (fun s => act (own s) s) acts s w).state := by
  have hrun := @Action.invariant_trace _ _ (fun s => act (own s) s)
    (fun past s => Stands accepted past s ∧ ∀ step, s.phase = .doing step → good s step)
    ?_ env acts [] s w ⟨.doing hphase (List.forall_mem_nil _) (.inl rfl), ?_⟩
  · exact hrun.1
  · rintro past s ⟨hstands, hgood⟩
    apply ensures_act
    · intro step hphase
      refine (hown s step hphase (hgood step hphase)).mono ?_
      rintro event next ⟨hevent, hfares, hnext⟩
      cases hstands with
      | doing _ hquiet hbegun => exact ⟨hfares.stands hquiet hbegun hevent, hnext⟩
      | cancelling h | told h | silent h | rejected h => simp [h] at hphase
    · -- The one write after which the transfer is over.
      intro ending reply moment hphase
      refine ⟨?_, nofun⟩
      cases hstands with
      | cancelling h hquiet haccepted hannounced hstate =>
        rw [hphase] at h
        cases h
        exact .told rfl hquiet (by simp [Event.cancels]) hphase rfl haccepted hannounced hstate
      | doing h | told h | silent h | rejected h => simp [h] at hphase
  · -- At the beginning there is nothing but the first step.
    intro step hstep
    rw [hphase] at hstep
    cases hstep
    exact hgood

end Stands

/-! ## The end -/

/-- What is known of a run of a party and its end: the peer is told at the very end or not at all,
nothing depends on whether it hears of it, and the session tells how the run ended. -/
structure Concludes {ω : Type} (accepted : Prop) (act : Party δ φ → Action (Party δ φ))
    (trace : List (Act (Party δ φ))) (r : Action.Run (Party δ φ) ω) : Prop where
  /-- After the cancel signal nothing is done. -/
  last : ∀ before a after, trace = before ++ a :: after → a.event.cancels = true → after = []
  /-- The cancel signal is written if the ending is one of which the peer is told, and only then. -/
  cancels_iff : ∀ ending, r.ending = some ending →
    ((∃ a ∈ trace, a.event.cancels = true) ↔ Announced ending)
  /-- The ending stands before the cancel signal is written. Whatever comes of that, it stays the
  same, as does the session. -/
  unchanged : ∀ a ∈ trace, a.event.cancels = true →
    ∃ ending, (r.ending = none ∨ r.ending = some ending) ∧ a.state.session = r.state.session ∧
      ∀ {ω' : Type} (env : Surroundings ω') (acts : Nat) (w : ω'),
        (Action.run env act (acts + 2) a.state w).ending = some ending ∧
          (Action.run env act (acts + 2) a.state w).state.session = a.state.session
  /-- The session is done if the transfer is complete, and only then. -/
  done_iff : ∀ ending, r.ending = some ending →
    (r.state.session.state = .done ↔ ∃ summary, ending = .ok (.completed summary))
  /-- The session is aborted if the transfer is, and only then. -/
  aborted_iff : ∀ ending, r.ending = some ending →
    (r.state.session.state = .aborted ↔ ending = .ok .aborted)
  /-- The session has failed if there is an error and the transfer was accepted, and only then. -/
  failed_iff : ∀ ending, r.ending = some ending →
    (r.state.session.state = .failed ↔ accepted ∧ ∃ e, ending = .error e)
  /-- The session has not begun if the transfer was not accepted, and only then. -/
  init_iff : ∀ ending, r.ending = some ending → (r.state.session.state = .init ↔ ¬accepted)
  /-- A transfer that is not accepted ends with the complaint. -/
  rejected : ∀ ending, r.ending = some ending → ¬accepted →
    ∃ text, ending = .error (.invalidArgument text)
  /-- Nothing is seen from outside of a transfer that is not accepted. -/
  silent : ¬accepted → ∀ a ∈ trace, a.event = .silent

section Concludes

variable {ω : Type} {accepted : Prop} {own : Party δ φ → φ → Action (Party δ φ)}

/-- A party that is about to tell its peer comes to the same end in all surroundings. -/
theorem run_of_cancelling {s : Party δ φ} {ending : Ending} (hphase : s.phase = .cancelling ending)
    (env : Surroundings ω) (acts : Nat) (w : ω) :
    (Action.run env (fun s => act (own s) s) (acts + 2) s w).ending = some ending ∧
      (Action.run env (fun s => act (own s) s) (acts + 2) s w).state.session = s.session := by
  simp [Action.run, act, hphase, Action.step]

/-- A party that is about to tell its peer does nothing else any more. -/
theorem trace_of_cancelling {s : Party δ φ} {ending : Ending}
    (hphase : s.phase = .cancelling ending) (env : Surroundings ω) (acts : Nat) (w : ω) :
    ∃ reply, Action.trace env (fun s => act (own s) s) (acts + 2) s w =
      [⟨s, .write [Control.can.byte, Control.can.byte] reply⟩] := by
  refine ⟨(env.write w [Control.can.byte, Control.can.byte]).1, ?_⟩
  simp [Action.trace, act, hphase, Action.step, Action.event]

/-- A run in which an act leads to a party that is about to tell its peer ends with that. -/
theorem exists_told_of_cancelling {env : Surroundings ω} {s next : Party δ φ} {w w' : ω}
    {sofar : Nat} {before : List (Act (Party δ φ))} {a : Act (Party δ φ)} {ending : Ending}
    (hruns : ∀ more,
      Action.trace env (fun s => act (own s) s) (more + sofar) s w =
          before ++ a :: Action.trace env (fun s => act (own s) s) more next w' ∧
        Action.run env (fun s => act (own s) s) (more + sofar) s w =
          Action.run env (fun s => act (own s) s) more next w')
    (hphase : next.phase = .cancelling ending) :
    ∃ (all : Nat) (told : Party δ φ) (reply : Except IoError Nat),
      (Action.run env (fun s => act (own s) s) all s w).ending = some ending ∧
      Action.trace env (fun s => act (own s) s) all s w =
        before ++ [a, ⟨told, .write [Control.can.byte, Control.can.byte] reply⟩] := by
  obtain ⟨htrace, hrun⟩ := hruns (0 + 2)
  obtain ⟨reply, htold⟩ := trace_of_cancelling hphase env 0 w'
  refine ⟨0 + 2 + sofar, next, reply, ?_, ?_⟩
  · rw [hrun]
    exact (run_of_cancelling hphase env 0 w').1
  · rw [htrace]
    exact congrArg (fun last => before ++ a :: last) htold

variable {trace : List (Act (Party δ φ))} {r : Action.Run (Party δ φ) ω}

/-- What is known of a run in which the peer has not been told of anything. -/
theorem concludes_of_quiet (hquiet : ∀ a ∈ trace, a.event.cancels = false)
    (hannounced : ∀ ending, r.ending = some ending → ¬Announced ending)
    (hleft : ∀ ending, r.ending = some ending → LeftAt accepted ending r.state.session.state)
    (hsilent : ¬accepted → ∀ a ∈ trace, a.event = .silent) :
    Concludes accepted (fun s => act (own s) s) trace r := by
  have hno : ¬∃ a ∈ trace, a.event.cancels = true := by
    rintro ⟨a, ha, hcancels⟩
    rw [hquiet a ha] at hcancels
    cases hcancels
  refine ⟨?_, ?_, ?_, fun e h => (hleft e h).done_iff, fun e h => (hleft e h).aborted_iff,
    fun e h => (hleft e h).failed_iff, fun e h => (hleft e h).init_iff,
    fun e h => (hleft e h).exists_text, hsilent⟩
  · intro before a after htrace hcancels
    exact absurd ⟨a, by simp [htrace], hcancels⟩ hno
  · intro ending h
    exact iff_of_false hno (hannounced ending h)
  · intro a ha hcancels
    exact absurd ⟨a, ha, hcancels⟩ hno

/-- What is known of a run in which the peer has been told. -/
theorem concludes_of_told {past : List (Act (Party δ φ))} {a : Act (Party δ φ)} {ending : Ending}
    (hquiet : ∀ a ∈ past, a.event.cancels = false) (hcancels : a.event.cancels = true)
    (hbefore : a.state.phase = .cancelling ending) (hsession : a.state.session = r.state.session)
    (haccepted : accepted) (hannounced : Announced ending)
    (hstate : r.state.session.state = lastState ending)
    (hending : ∀ ending', r.ending = some ending' → ending' = ending) :
    Concludes accepted (fun s => act (own s) s) (past ++ [a]) r := by
  have hleft : ∀ ending', r.ending = some ending' →
      LeftAt accepted ending' r.state.session.state := by
    intro ending' h
    rw [hending ending' h]
    exact .inl ⟨haccepted, hstate⟩
  refine ⟨?_, ?_, ?_, fun e h => (hleft e h).done_iff, fun e h => (hleft e h).aborted_iff,
    fun e h => (hleft e h).failed_iff, fun e h => (hleft e h).init_iff,
    fun e h => (hleft e h).exists_text, fun hrejected => absurd haccepted hrejected⟩
  · intro before b after htrace hb
    -- If something came after it, the cancel signal would be among the quiet acts.
    rcases List.eq_nil_or_concat after with rfl | ⟨after', c, rfl⟩
    · rfl
    · have hpast : past = before ++ b :: after' := by
        have := htrace.trans (by simp : _ = (before ++ b :: after') ++ [c])
        exact (List.append_inj' this rfl).1
      have hnot := hquiet b (by simp [hpast])
      rw [hb] at hnot
      cases hnot
  · intro ending' h
    rw [hending ending' h]
    exact iff_of_true ⟨a, by simp, hcancels⟩ hannounced
  · intro b hb hcancels'
    have hlast : b = a := by
      rcases List.mem_append.mp hb with hb | hb
      · rw [hquiet b hb] at hcancels'
        cases hcancels'
      · exact List.mem_singleton.mp hb
    rw [hlast]
    refine ⟨ending, ?_, hsession, fun env acts w => run_of_cancelling hbefore env acts w⟩
    cases h : r.ending with
    | none => exact .inl rfl
    | some ending' => exact .inr (congrArg some (hending ending' h))

/-- What is known of a run follows from where the party stands after it. -/
theorem Stands.concludes (h : Stands accepted trace r.state)
    (hover : ∀ ending, r.ending = some ending → r.state.phase = .over ending) :
    Concludes accepted (fun s => act (own s) s) trace r := by
  have hended : ∀ {ending ending'}, r.state.phase = .over ending' → r.ending = some ending →
      ending = ending' := by
    intro ending ending' hphase hending
    rw [hover ending hending] at hphase
    cases hphase
    rfl
  generalize hs : r.state = s at h
  cases h with
  | doing hphase hquiet hbegun =>
    -- The run has been cut off, so there is nothing to be known of an ending.
    have hnot : ∀ ending, r.ending ≠ some ending := by
      intro ending hending
      have := hover ending hending
      rw [hs, hphase] at this
      cases this
    refine concludes_of_quiet hquiet (fun e h => absurd h (hnot e))
      (fun e h => absurd h (hnot e)) ?_
    intro hrejected a ha
    rw [hbegun.resolve_right hrejected] at ha
    cases ha
  | cancelling hphase hquiet haccepted =>
    have hnot : ∀ ending, r.ending ≠ some ending := by
      intro ending hending
      have := hover ending hending
      rw [hs, hphase] at this
      cases this
    exact concludes_of_quiet hquiet (fun e h => absurd h (hnot e))
      (fun e h => absurd h (hnot e)) (fun hrejected => absurd haccepted hrejected)
  | told hphase hquiet hcancels hbefore hsession haccepted hannounced hstate =>
    rw [← hs] at hphase hsession hstate
    exact concludes_of_told hquiet hcancels hbefore hsession haccepted hannounced hstate
      fun e h => hended hphase h
  | silent hphase hquiet haccepted hannounced hstate =>
    rw [← hs] at hphase hstate
    refine concludes_of_quiet hquiet ?_ ?_ (fun hrejected => absurd haccepted hrejected)
    · intro e h
      rwa [hended hphase h]
    · intro e h
      rw [hended hphase h]
      exact .inl ⟨haccepted, hstate⟩
  | rejected hphase hsilent hrejected hstate =>
    rw [← hs] at hphase hstate
    refine concludes_of_quiet ?_ ?_ ?_ fun _ => hsilent
    · intro a ha
      rw [hsilent a ha]
      rfl
    · intro e h
      rw [hended hphase h]
      exact nofun
    · intro e h
      rw [hended hphase h]
      exact .inr ⟨hrejected, hstate, _, rfl⟩

/-- The run of a party comes to its end when the party has. -/
theorem phase_of_ending (hlasts : ∀ s step ending, own s step ≠ .stop ending)
    {env : Surroundings ω} {acts : Nat} {s : Party δ φ} {w : ω} {ending : Ending}
    (h : (Action.run env (fun s => act (own s) s) acts s w).ending = some ending) :
    (Action.run env (fun s => act (own s) s) acts s w).state.phase = .over ending := by
  have hstop := Action.act_eq_stop_of_ending h
  unfold act at hstop
  split at hstop
  · exact absurd hstop (hlasts _ _ _)
  · cases hstop
  · rename_i hover
    cases hstop
    exact hover

/-- How the runs of a party end whose own acts do not stop and are as good as they should be. -/
theorem concludes_of_good {good : Party δ φ → φ → Prop}
    (hown : ∀ s step, s.phase = .doing step → good s step → (own s step).Ensures fun event next =>
      event.cancels = false ∧ Fares accepted event next ∧
        ∀ step', next.phase = .doing step' → good next step')
    (hlasts : ∀ s step ending, own s step ≠ .stop ending)
    {s : Party δ φ} {first : φ} (hphase : s.phase = .doing first) (hgood : good s first)
    (env : Surroundings ω) (acts : Nat) (w : ω) :
    Concludes accepted (fun s => act (own s) s)
      (Action.trace env (fun s => act (own s) s) acts s w)
      (Action.run env (fun s => act (own s) s) acts s w) := by
  refine (stands_trace hown hphase hgood env acts w).concludes ?_
  exact fun ending hending => phase_of_ending hlasts hending

end Concludes

end Party

/-! ## Senders -/

namespace Sender

variable {accepted : Prop} {s s' : Sender} {step step' : Step} {event : Event}

theorem step_ne_stop (s : Sender) (step : Step) (ending : Ending) :
    Sender.step s step ≠ .stop ending := by
  cases step with
  | attempt | streamHeader | offer | nextPiece => exact Party.unlessAborted_ne_stop nofun
  | listen | answer | drain => exact Party.listen_ne_stop
  | gathered piece =>
    unfold Sender.step gathered
    dsimp only
    split
    · exact nofun
    · split <;> exact nofun
  | _ => exact nofun

theorem two_lt_length_encode (block : Block) (trailer : Trailer) :
    2 < (block.encode trailer).length := by
  rw [Block.length_encode, Block.frameLength]
  omega

/-- What a sender writes while it goes on is not the cancel signal. -/
theorem Placed.frame_ne (hplaced : s.Placed step) {item : Item} (hitem : step.item? = some item) :
    frame s item ≠ [Control.can.byte, Control.can.byte] := by
  have hlength : (frame s item).length ≠ 2 := by
    cases item with
    | block piece => exact (two_lt_length_encode _ _).ne'
    | endOfFile => simp [frame]
    | endOfBatch => exact (two_lt_length_encode _ _).ne'
    | header =>
      have hfiles : s.job.files ≠ [] := by
        refine hplaced.files_ne_nil ?_
        cases step <;> cases hitem <;> rfl
      obtain ⟨file, files, hcons⟩ := List.exists_cons_of_ne_nil hfiles
      rw [frame, hcons]
      exact (two_lt_length_encode _ _).ne'
  intro h
  exact hlength (by simp [h])

theorem Turns.cancels (h : Turns s step event s' step') (hplaced : s.Placed step) :
    event.cancels = false := by
  cases h with
  | streamHeader | offer | streamed => simpa [Event.cancels] using hplaced.frame_ne rfl
  | _ => rfl

theorem Breaks.cancels {e : TransferError} (h : Breaks s step event e) (hplaced : s.Placed step) :
    event.cancels = false := by
  cases h with
  | unwritten hitem => simpa [Event.cancels] using hplaced.frame_ne hitem
  | _ => rfl

/-- A sender does not begin again. -/
theorem Turns.ne_start (h : Turns s step event s' step') : step' ≠ .start := by
  cases h with
  | noise htask =>
    rintro rfl
    exact htask rfl
  | arrival htask =>
    rintro rfl
    cases htask
  | _ => exact nofun

theorem Breaks.ne_start {e : TransferError} (h : Breaks s step event e) : step ≠ .start := by
  rintro rfl
  cases h with
  | cancelled htask | unread htask => exact htask rfl
  | unwritten hitem => cases hitem

/-- A sender at a step that fits, which has found out whether the transfer is accepted unless it is
about to begin. -/
structure Informed (accepted : Prop) (s : Sender) (step : Step) : Prop where
  placed : s.Placed step
  begun : step ≠ .start → accepted
  accepted_iff : step = .start → (accepted ↔ ¬Unfit s.options s.job.files)
  state : step = .start → s.session.state = .init

theorem informed_of_ne_start (hplaced : s.Placed step) (haccepted : accepted)
    (hstep : step ≠ .start) : Informed accepted s step :=
  ⟨hplaced, fun _ => haccepted, fun h => absurd h hstep, fun h => absurd h hstep⟩

/-- A sender that goes on is accepted. -/
theorem Informed.accepted_of_turns (hgood : Informed accepted s step)
    (h : Turns s step event s' step') : accepted := by
  by_cases hstep : step = .start
  · refine (hgood.accepted_iff hstep).mpr ?_
    subst hstep
    cases h with
    | start hcheck hfiles =>
      rintro (hunfit | ⟨hprotocol, hunfit⟩)
      · exact hunfit hcheck
      · exact hunfit (hfiles hprotocol)
    | noise htask => exact absurd rfl htask
    | arrival htask => cases htask
  · exact hgood.begun hstep

/-- What an act of a sender comes to, as far as the end of its run is concerned. -/
theorem ensures_fares (hgood : Informed accepted s step) :
    (Sender.step s step).Ensures fun event next =>
      event.cancels = false ∧ Party.Fares accepted event next ∧
        ∀ step', next.phase = .doing step' → Informed accepted next step' := by
  refine (ensures_course hgood.placed).mono ?_
  intro event next hcourse
  cases hcourse with
  | turns h =>
    have haccepted := hgood.accepted_of_turns h
    refine ⟨h.cancels hgood.placed, .goes haccepted _ _, ?_⟩
    rintro step'' ⟨⟩
    have hplaced := h.placed hgood.placed
    exact informed_of_ne_start ⟨hplaced.files_ne_nil, hplaced.timed⟩ haccepted h.ne_start
  | @breaks _ _ s' e h =>
    refine ⟨h.cancels hgood.placed, .fails (hgood.begun h.ne_start) _ _, ?_⟩
    exact fun step' hphase => absurd hphase ((Party.parted_fail _ _).phase_ne step')
  | completes h =>
    have hstep : step ≠ .start := by
      rintro rfl
      cases h
    refine ⟨rfl, .completes (hgood.begun hstep) _, ?_⟩
    exact fun step' hphase => absurd hphase ((Party.parted_complete _).phase_ne step')
  | aborts hhalts =>
    have hstep : step ≠ .start := by
      rintro rfl
      cases hhalts
    refine ⟨rfl, .aborts (hgood.begun hstep) _, ?_⟩
    exact fun step' hphase => absurd hphase ((Party.parted_abort _).phase_ne step')
  | rejects hunfit =>
    refine ⟨rfl, .rejects ?_ _ rfl (hgood.state rfl), ?_⟩
    · intro haccepted
      exact (hgood.accepted_iff rfl).mp haccepted hunfit
    · exact fun step' hphase => absurd hphase ((Party.parted_reject _ _).phase_ne step')

/-- How the runs of a sender end. It accepts options with positive limits and, if files have no
headers, exactly one file. -/
theorem concludes (options : Options) (files : List FileHeader) (moment : Moment) {ω : Type}
    (env : Surroundings ω) (acts : Nat) (w : ω) :
    Party.Concludes (options.check = none ∧ (options.protocol = .xmodem → files.length = 1))
      Sender.act (Action.trace env Sender.act acts (new options files moment) w)
      (Action.run env Sender.act acts (new options files moment) w) := by
  have hgood : Informed (options.check = none ∧ (options.protocol = .xmodem → files.length = 1))
      (new options files moment) .start := by
    refine ⟨⟨nofun, nofun⟩, fun h => absurd rfl h, fun _ => ?_, fun _ => rfl⟩
    simp only [Unfit, not_or, not_and, Decidable.not_not, ne_eq]
    rfl
  exact Party.concludes_of_good (fun s step _ h => ensures_fares h) step_ne_stop rfl hgood env acts
    w

end Sender

/-! ## Receivers -/

namespace Receiver

variable {accepted : Prop} {s s' : Receiver} {step step' : Step} {event : Event}

theorem judgeSolicited_ne_stop (s : Receiver) (stage : Stage) (incoming : Incoming)
    (ending : Ending) : judgeSolicited s stage incoming ≠ .stop ending := by
  unfold judgeSolicited
  cases incoming with
  | block block =>
    dsimp only
    split
    · exact nofun
    · unfold readHeader
      split
      · exact nofun
      · split <;> exact nofun
  | endOfFile =>
    dsimp only
    split <;> exact nofun
  | corrupt | silence => exact nofun

theorem judgeData_ne_stop (s : Receiver) (incoming : Incoming) (ending : Ending) :
    judgeData s incoming ≠ .stop ending := by
  unfold judgeData
  cases incoming with
  | block block =>
    dsimp only
    split
    · exact nofun
    · split <;> exact nofun
  | endOfFile =>
    dsimp only
    split <;> exact nofun
  | corrupt e =>
    dsimp only
    split <;> exact nofun
  | silence =>
    dsimp only
    split
    · exact nofun
    · split <;> exact nofun

theorem step_ne_stop (s : Receiver) (step : Step) (ending : Ending) :
    Receiver.step s step ≠ .stop ending := by
  cases step with
  | attempt stage prompt =>
    apply Party.unlessAborted_ne_stop
    cases prompt <;> exact nofun
  | nextBlock => exact Party.unlessAborted_ne_stop nofun
  | listen | collect => exact Party.listen_ne_stop
  | purge =>
    unfold Receiver.step
    exact Party.listen_ne_stop
  | judge purpose incoming =>
    cases purpose with
    | solicited stage => exact judgeSolicited_ne_stop s stage incoming ending
    | data => exact judgeData_ne_stop s incoming ending
  | announced | accept | repeated =>
    unfold Receiver.step
    dsimp only
    split <;> exact nofun
  | missed purpose prompt => cases purpose <;> exact nofun
  | _ => exact nofun

/-- What a receiver writes while it goes on is not the cancel signal. -/
theorem Turns.cancels (h : Turns s step event s' step') : event.cancels = false := by
  cases h with
  | speaks => simp [Event.cancels]
  | _ => rfl

theorem Breaks.cancels {e : TransferError} (h : Breaks s step event e) :
    event.cancels = false := by
  cases h with
  | unwritten => simp [Event.cancels]
  | _ => rfl

theorem Completes.cancels (h : Completes s step event) : event.cancels = false := by
  cases h <;> rfl

/-- A receiver does not begin again. -/
theorem Turns.ne_start (h : Turns s step event s' step') : step' ≠ .start := by
  cases h with
  | speaks h => cases h <;> exact nofun
  | arrival htask => cases step <;> cases htask <;> exact nofun
  | _ => exact nofun

theorem Breaks.ne_start {e : TransferError} (h : Breaks s step event e) : step ≠ .start := by
  rintro rfl
  cases h with
  | unread htask => exact htask rfl
  | unwritten h => cases h

/-- A receiver at a step that fits, which has found out whether the transfer is accepted unless it
is about to begin. -/
structure Informed (accepted : Prop) (s : Receiver) (step : Step) : Prop where
  placed : s.Placed step
  begun : step ≠ .start → accepted
  accepted_iff : step = .start → (accepted ↔ s.options.check = none)
  state : step = .start → s.session.state = .init

/-- A receiver that goes on is accepted. -/
theorem Informed.accepted_of_turns (hgood : Informed accepted s step)
    (h : Turns s step event s' step') : accepted := by
  by_cases hstep : step = .start
  · refine (hgood.accepted_iff hstep).mpr ?_
    subst hstep
    cases h with
    | start hcheck => exact hcheck
    | speaks h => cases h
    | arrival htask => cases htask
  · exact hgood.begun hstep

/-- What an act of a receiver comes to, as far as the end of its run is concerned. -/
theorem ensures_fares (hgood : Informed accepted s step) :
    (Receiver.step s step).Ensures fun event next =>
      event.cancels = false ∧ Party.Fares accepted event next ∧
        ∀ step', next.phase = .doing step' → Informed accepted next step' := by
  refine (ensures_course hgood.placed).mono ?_
  intro event next hcourse
  cases hcourse with
  | turns h =>
    have haccepted := hgood.accepted_of_turns h
    have hstep := h.ne_start
    refine ⟨h.cancels, .goes haccepted _ _, ?_⟩
    rintro step'' ⟨⟩
    exact ⟨h.placed hgood.placed, fun _ => haccepted, fun h => absurd h hstep,
      fun h => absurd h hstep⟩
  | breaks h =>
    refine ⟨h.cancels, .fails (hgood.begun h.ne_start) _ _, ?_⟩
    exact fun step' hphase => absurd hphase ((Party.parted_fail _ _).phase_ne step')
  | completes h =>
    have hstep : step ≠ .start := by
      rintro rfl
      cases h
    refine ⟨h.cancels, .completes (hgood.begun hstep) _, ?_⟩
    exact fun step' hphase => absurd hphase ((Party.parted_complete _).phase_ne step')
  | aborts hhalts =>
    have hstep : step ≠ .start := by
      rintro rfl
      cases hhalts
    refine ⟨rfl, .aborts (hgood.begun hstep) _, ?_⟩
    exact fun step' hphase => absurd hphase ((Party.parted_abort _).phase_ne step')
  | rejects hcheck =>
    refine ⟨rfl, .rejects ?_ _ rfl (hgood.state rfl), ?_⟩
    · intro haccepted
      exact hcheck ((hgood.accepted_iff rfl).mp haccepted)
    · exact fun step' hphase => absurd hphase ((Party.parted_reject _ _).phase_ne step')

/-- How the runs of a receiver end. It accepts options with positive limits. -/
theorem concludes (options : Options) (moment : Moment) {ω : Type} (env : Surroundings ω)
    (acts : Nat) (w : ω) :
    Party.Concludes (options.check = none) Receiver.act
      (Action.trace env Receiver.act acts (new options moment) w)
      (Action.run env Receiver.act acts (new options moment) w) := by
  have hgood : Informed (options.check = none) (new options moment) .start :=
    ⟨trivial, fun h => absurd rfl h, fun _ => Iff.rfl, fun _ => rfl⟩
  exact Party.concludes_of_good (fun s step _ h => ensures_fares h) step_ne_stop rfl hgood env acts
    w

end Receiver

/-! ## Both parties -/

/-- How the runs of senders and receivers end. A sender accepts options with positive limits and, if
files have no headers, exactly one file; a receiver accepts options with positive limits. -/
theorem concludes_run (options : Options) (moment : Moment) {ω : Type} (env : Surroundings ω)
    (acts : Nat) (w : ω) :
    (∀ files, Party.Concludes
      (options.check = none ∧ (options.protocol = .xmodem → files.length = 1))
      Sender.act (Action.trace env Sender.act acts (Sender.new options files moment) w)
      (Action.run env Sender.act acts (Sender.new options files moment) w)) ∧
    Party.Concludes (options.check = none) Receiver.act
      (Action.trace env Receiver.act acts (Receiver.new options moment) w)
      (Action.run env Receiver.act acts (Receiver.new options moment) w) :=
  ⟨fun files => Sender.concludes options files moment env acts w,
    Receiver.concludes options moment env acts w⟩

end BlockTransfer
