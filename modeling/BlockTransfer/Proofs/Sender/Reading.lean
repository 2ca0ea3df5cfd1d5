import BlockTransfer.Proofs.Chunking.Queue
import BlockTransfer.Proofs.Contents
import BlockTransfer.Proofs.Rehearsal
import BlockTransfer.Proofs.Rehearsal.Reading
import BlockTransfer.Proofs.Sender.Course

/-!
# Files that are read in parts

A sender fills a block before it sends it, however many readings that takes. So of two senders, one
of which reads its files at once and the other one in parts, the second one has read less or more of
the block in hand, and otherwise they are the same. The first one waits for the reading with which
the block of the second one is full, or with which the file is at its end.

## Main definitions

* `Script.Ahead`: the files of a reader in parts, who may have read more of the current one.
* `Sender.Outpaces`: a sender that reads at once beside one that reads in parts.

## Main results

* `Sender.Outpaces.abreast`: the two senders do the same, or the second one reads a part.
-/

namespace BlockTransfer

/-! ## Files -/

namespace Script

/-- A file that is read at once, beside the same file that is read in parts, of which some bytes
more have been read. -/
def Source.Leads (extra : Bytes) (source source' : Source) : Prop :=
  source.Plain ∧ ∃ rest, source'.Holds rest none ∧ source.remaining = extra ++ rest

/-- Files that are read at once, beside the same files that are read in parts, of one of which some
bytes more have been read. -/
def Ahead (file : Nat) (extra : Bytes) (sources sources' : List Source) : Prop :=
  ∀ i, Option.Rel (Source.Leads (if i = file then extra else [])) sources[i]? sources'[i]?

variable {file file' : Nat} {extra extra' : Bytes} {sources sources' : List Source}
  {source source' after after' : Source}

/-- It does not matter of which file nothing more has been read. -/
theorem Ahead.of_nil (h : Ahead file [] sources sources') : Ahead file' [] sources sources' := by
  intro i
  have hi := h i
  rwa [ite_self] at hi ⊢

/-- A part of the file is read by the one reader or by both. -/
theorem Ahead.update {sources₁ sources₁' : List Source} (h : Ahead file extra sources sources')
    (hfile : Option.Rel (Source.Leads extra') sources₁[file]? sources₁'[file]?)
    (hothers : ∀ i, i ≠ file → sources₁[i]? = sources[i]? ∧ sources₁'[i]? = sources'[i]?) :
    Ahead file extra' sources₁ sources₁' := by
  intro i
  by_cases hi : i = file
  · rw [if_pos hi, hi]
    exact hfile
  · have hbefore := h i
    rw [if_neg hi] at hbefore ⊢
    rwa [(hothers i hi).1, (hothers i hi).2]

end Script

/-! ## Steps -/

namespace Sender

open Script

variable {s next : Sender} {step : Step} {event : Event}

/-- A file is fetched only while a piece is gathered, and a piece is begun with nothing. -/
theorem Course.of_ne_gather (h : Course s step event next)
    (hstep : ∀ piece, step ≠ .gather piece) :
    (∀ file most reply, event ≠ .fetch file most reply) ∧
      ∀ piece, next.phase = .doing (.gather piece) → piece = [] := by
  have hparted : ∀ {next : Sender}, next.Parted → ∀ piece, next.phase = .doing (.gather piece) →
      piece = [] :=
    fun hparted piece hphase => absurd hphase (hparted.phase_ne _)
  cases h with
  | turns h =>
    cases h with
    | interrupted | gathered | gather => exact absurd rfl (hstep _)
    | noise | arrival =>
      refine ⟨nofun, ?_⟩
      rintro piece ⟨⟩
      exact absurd rfl (hstep piece)
    | nextPiece =>
      refine ⟨nofun, ?_⟩
      rintro piece ⟨⟩
      rfl
    | _ => exact ⟨nofun, nofun⟩
  | breaks h =>
    refine ⟨?_, hparted (Party.parted_fail _ _)⟩
    rintro file most reply rfl
    cases h with
    | unfetched => exact absurd rfl (hstep _)
  | completes => exact ⟨nofun, hparted (Party.parted_complete _)⟩
  | aborts => exact ⟨nofun, hparted (Party.parted_abort _)⟩
  | rejects => exact ⟨nofun, hparted (Party.parted_reject _ _)⟩

/-- An interrupted reading is tried again. -/
theorem fetched_of_interrupted (s : Sender) (piece : Bytes) (most : Nat) {e : IoError}
    (hkind : e.kind = .interrupted) : fetched s piece most (.error e) = s.goto (.gather piece) :=
  if_pos hkind

/-! ## Two senders -/

variable {κ : Type} {setup : Setup κ} {lag : Nat} {s' : Sender} {w w' : World κ}
  {piece extra : Bytes}

/-- A sender that gathers a piece reads the current file. -/
theorem step_of_gather {most : Nat} (hphase : s.phase = .doing (.gather piece))
    (hmoment : s.moment = w.moment)
    (hmost : piece.length + most = s.options.variant.blockSize.length) (setup : Setup κ) :
    (Sender.act s).step (World.surroundings setup) w =
      .ok (fetched s piece most (w.fetch s.job.index most).1, (w.fetch s.job.index most).2) := by
  obtain rfl : s.options.variant.blockSize.length - piece.length = most := by omega
  have hsame (after : World κ) (h : after.moment = w.moment) :
      ({ s with moment := after.moment } : Sender) = s := by
    rw [h, ← hmoment]
  rw [Sender.act, Party.act, hphase]
  simp only [Sender.step, Action.step, World.surroundings]
  rw [hsame _ (World.moment_fetch w _ _)]

/-- A sender that reads its files at once beside one that reads them in parts. Both are at the same
step, but the second one may have read more of the block in hand, and even then not all of the
file. -/
structure Outpaces (lag : Nat) (s : Sender) (w : World κ) (s' : Sender) (w' : World κ) : Prop where
  /-- What the second one still has to read. -/
  supply : w'.supply = lag
  moment : s.moment = w.moment
  placed : ∀ step, s.phase = .doing step → s.Placed step
  /-- The block in hand is not full. -/
  short : ∀ piece, s'.phase = .doing (.gather piece) →
    piece.length < s.options.variant.blockSize.length
  keeps : ∃ extra, w.Twins Eq (Ahead s.job.index extra) w' ∧ (s' = s ∧ extra = [] ∨
    ∃ piece, s.phase = .doing (.gather piece) ∧ s' = s.goto (.gather (piece ++ extra)) ∧
      (extra ≠ [] →
        ∃ source', w'.sources[s.job.index]? = some source' ∧ source'.remaining ≠ []))

/-- Where no piece is gathered, both do the same. -/
theorem Outpaces.abreast_of_ne_gather (h : Outpaces lag s w s' w')
    (hstep : ∀ piece, s.phase ≠ .doing (.gather piece)) :
    Action.Abreast Outpaces lag s w ((Sender.act s).step (World.surroundings setup) w)
      ((Sender.act s').step (World.surroundings setup) w') := by
  obtain ⟨extra, hworld, ⟨rfl, rfl⟩ | ⟨piece, hphase, -⟩⟩ := h.keeps
  case inr => exact absurd hphase (hstep piece)
  have hensures : (Sender.act s').Ensures fun event next =>
      (∀ file most reply, event ≠ .fetch file most reply) ∧
        ∀ piece, next.phase = .doing (.gather piece) → piece = [] := by
    refine ensures_act_of_course h.placed ?_ fun _ _ _ _ => ⟨nofun, nofun⟩
    rintro step event next hphase hcourse
    refine hcourse.of_ne_gather ?_
    rintro piece rfl
    exact hstep piece hphase
  have hfetch (file most : Nat) (reply : Except IoError Bytes → Moment → Sender) :
      Sender.act s' ≠ .fetch file most reply := by
    intro hact
    rw [hact] at hensures
    exact (hensures (.ok []) s'.moment).1 file most (.ok []) rfl
  have hsame := hworld.step_map Wire.covert_eq setup id (a := Sender.act s')
    (fun timeout _ _ => hworld.read setup timeout)
    (fun file most next hact => absurd hact (hfetch file most next))
  rw [Action.map_id] at hsame
  rcases hsame with ⟨ending, hnext, hnext'⟩ | ⟨next, w₁, w₁', hnext, hnext', hworld₁⟩
  · exact .stop ending hnext hnext'
  · have hmoment := h.moment
    have hattentive := attentive_act s'
    rw [hmoment] at hattentive
    refine .both _ next w₁ next w₁' hnext hnext' ⟨rfl, hattentive.moment_eq hnext, ?_, ?_, [],
      ⟨hworld₁.wire, hworld₁.sources.of_nil, hworld₁.others⟩, .inl ⟨rfl, rfl⟩⟩
    · exact (usesQueue.placed_act h.placed).of_step hnext
    · intro piece hphase
      rw [(hensures.of_step hnext).2 piece hphase]
      exact blockSize_pos next.options

/-- What the next readings of two senders come to that gather a piece. -/
inductive Gathers (s : Sender) (piece : Bytes) (source : Source) (file most : Nat)
    (reply reply' : Except IoError Bytes) (most' : Nat) (extra : Bytes) (after after' : Source) :
    Prop
  /-- Both come to the same step. -/
  | both (step : Step) (hstep : fetched s piece most reply = s.goto step)
      (hstep' : fetched s (piece ++ extra) most' reply' = s.goto step)
      (hshort : ∀ piece, step = .gather piece →
        piece.length < s.options.variant.blockSize.length)
      (hleads : Source.Leads [] after after')
  /-- The second one has read more of the piece, or was interrupted. -/
  | behind (extra' : Bytes)
      (hstep' : fetched s (piece ++ extra) most' reply' = s.goto (.gather (piece ++ extra')))
      (hshort : (piece ++ extra').length < s.options.variant.blockSize.length)
      (hmore : extra' ≠ [] → after'.remaining ≠ []) (hleads : Source.Leads extra' source after')
      (hfeeds : (Event.fetch file most' reply').feeds = true)

/-- A reading that brings a part of the file brings it into the piece of the second sender, or fills
it, or leaves nothing in the file. -/
theorem gathers_of_data {source after' : Source} {data left : Bytes} {most most' : Nat}
    (hplain : source.Plain) (hremaining : source.remaining = extra ++ (data ++ left))
    (hafter : after'.Holds left none) (hne : data ≠ []) (hlength : data.length ≤ most')
    (hmost : piece.length + most = s.options.variant.blockSize.length)
    (hmost' : (piece ++ extra).length + most' = s.options.variant.blockSize.length) (file : Nat) :
    Gathers s piece source file most (source.fetch most).1 (.ok data) most' extra
      (source.fetch most).2 after' := by
  obtain ⟨hreply, hplain₁, hremaining₁⟩ := hplain.fetch most
  have hmore : extra ++ data ≠ [] := List.append_ne_nil_of_right_ne_nil _ hne
  have hwhole : (extra ++ data).length = extra.length + data.length := List.length_append
  have hpiece : (piece ++ extra).length = piece.length + extra.length := List.length_append
  rw [hremaining, ← List.append_assoc] at hreply hremaining₁
  rcases Nat.lt_or_eq_of_le hlength with hless | hfull
  · have hstep' := fetched_of_length_lt s (piece ++ extra) hne hless
    rw [List.append_assoc] at hstep'
    have hshort : (piece ++ (extra ++ data)).length < s.options.variant.blockSize.length := by
      rw [List.length_append]
      omega
    by_cases hleft : left = []
    · -- There is nothing behind what the second one has read, so the first one reads it now.
      subst hleft
      rw [List.append_nil] at hreply hremaining₁
      rw [List.take_of_length_le (by omega)] at hreply
      rw [List.drop_of_length_le (by omega)] at hremaining₁
      refine .both _ ?_ hstep' ?_ ⟨hplain₁, [], hafter, hremaining₁⟩
      · rw [hreply]
        exact fetched_of_length_lt s piece hmore (by omega)
      · rintro _ ⟨⟩
        exact hshort
    · refine .behind (extra ++ data) hstep' hshort ?_ ⟨hplain, left, hafter, ?_⟩ ?_
      · intro _
        cases hafter.fate
        exact hleft
      · rw [hremaining, List.append_assoc]
      · simpa [Event.feeds] using hne
  · -- The block of the second one is full, and so is that of the first one.
    have hall : (extra ++ data).length = most := by omega
    rw [List.take_left' hall] at hreply
    rw [List.drop_left' hall] at hremaining₁
    have hstep' := fetched_of_length_eq s (piece ++ extra) hfull
    rw [List.append_assoc] at hstep'
    refine .both _ ?_ hstep' (fun _ => Step.noConfusion) ⟨hplain₁, left, hafter, hremaining₁⟩
    rw [hreply]
    exact fetched_of_length_eq s piece hall

/-- A piece comes out the same, however many readings it takes. -/
theorem gathers_of_leads {source source' : Source} {most most' : Nat}
    (hleads : Source.Leads extra source source') (hmore : extra ≠ [] → source'.remaining ≠ [])
    (hmost : piece.length + most = s.options.variant.blockSize.length)
    (hmost' : (piece ++ extra).length + most' = s.options.variant.blockSize.length)
    (hpos : 0 < most') (file : Nat) :
    Gathers s piece source file most (source.fetch most).1 (source'.fetch most').1 most' extra
      (source.fetch most).2 (source'.fetch most').2 := by
  obtain ⟨hplain, rest, hholds, hremaining⟩ := hleads
  have hfetched := hholds.fetched hpos
  have hrest : source'.remaining = rest := by
    cases hholds.fate
    rfl
  rw [hrest] at hmore
  generalize source'.fetch most' = fetch' at hfetched
  obtain ⟨reply', after'⟩ := fetch'
  cases hfetched with
  | failed hnil hlast => cases hlast
  | interrupted hkind hafter =>
    refine .behind extra (fetched_of_interrupted _ _ _ hkind) ?_ ?_
      ⟨hplain, rest, hafter, hremaining⟩ ?_
    · omega
    · intro hne
      cases hafter.fate
      exact hmore hne
    · exact decide_eq_true hkind
  | ended hnil _ hafter =>
    subst hnil
    -- The file is at its end for both.
    obtain rfl : extra = [] := by
      by_contra hne
      exact hmore hne rfl
    obtain ⟨hreply, hplain₁, hremaining₁⟩ := hplain.fetch most
    rw [hremaining] at hreply hremaining₁
    refine .both (.gathered piece) ?_ ?_ (fun _ => Step.noConfusion) ⟨hplain₁, [], hafter, ?_⟩
    · rw [hreply, List.append_nil, List.take_nil]
      exact fetched_nil _ _ _
    · rw [List.append_nil]
      exact fetched_nil _ _ _
    · rw [hremaining₁, List.append_nil, List.drop_nil]
  | data hne hlength hsplit hafter =>
    subst hsplit
    exact gathers_of_data hplain hremaining hafter hne hlength hmost hmost' file

/-- What two senders come to by reading a part of a file each is what their states come to. -/
theorem Outpaces.abreast_of_gathers {most most' : Nat} {source source' : Source}
    (h : Outpaces lag s w (s.goto (.gather (piece ++ extra))) w')
    (hphase : s.phase = .doing (.gather piece))
    (hworld : w.Twins Eq (Ahead s.job.index extra) w')
    (hmost : piece.length + most = s.options.variant.blockSize.length)
    (hmost' : (piece ++ extra).length + most' = s.options.variant.blockSize.length)
    (hsource : w.sources[s.job.index]? = some source)
    (hsource' : w'.sources[s.job.index]? = some source')
    (hgathers : Gathers s piece source s.job.index most (source.fetch most).1
      (source'.fetch most').1 most' extra (source.fetch most).2 (source'.fetch most').2) :
    Action.Abreast Outpaces lag s w ((Sender.act s).step (World.surroundings setup) w)
      ((Sender.act (s.goto (.gather (piece ++ extra)))).step (World.surroundings setup) w') := by
  have hmoment' : s.moment = w'.moment := h.moment.trans (hworld.moment_eq Wire.covert_eq).symm
  have hstep := step_of_gather hphase h.moment hmost setup
  have hstep' :
    (Sender.act (s.goto (.gather (piece ++ extra)))).step (World.surroundings setup) w' =
      .ok (fetched s (piece ++ extra) most' (w'.fetch s.job.index most').1,
        (w'.fetch s.job.index most').2) :=
    step_of_gather (s := s.goto (.gather (piece ++ extra))) rfl hmoment' hmost' setup
  have hsupply := World.supply_fetch_le w' s.job.index most'
  have hmoment := World.moment_fetch w s.job.index most
  rw [World.fetch_eq hsource'] at hstep' hsupply
  rw [World.fetch_eq hsource] at hstep hmoment
  have hothers : ∀ (after after' : Source) i, i ≠ s.job.index →
      (w.sources.set s.job.index after)[i]? = w.sources[i]? ∧
        (w'.sources.set s.job.index after')[i]? = w'.sources[i]? := by
    intro after after' i hi
    exact ⟨List.getElem?_set_ne hi.symm, List.getElem?_set_ne hi.symm⟩
  have hself : ∀ {sources : List Source} {source : Source} (after : Source),
      sources[s.job.index]? = some source →
      (sources.set s.job.index after)[s.job.index]? = some after := by
    intro sources source after hsome
    exact List.getElem?_set_self (List.getElem?_eq_some_iff.mp hsome).1
  cases hgathers with
  | both step hfetched hfetched' hshort hleads =>
    rw [hfetched] at hstep
    rw [hfetched'] at hstep'
    refine .both _ _ _ _ _ hstep hstep' ⟨rfl, h.moment.trans hmoment.symm,
      (usesQueue.placed_act h.placed).of_step hstep, ?_, [], ?_, .inl ⟨rfl, rfl⟩⟩
    · intro piece hpiece
      exact hshort piece (Phase.doing.inj hpiece)
    · refine hworld.withSources (hworld.sources.update ?_ (hothers _ _))
      rw [hself _ hsource, hself _ hsource']
      exact .some hleads
  | behind extra' hfetched' hshort hmore hleads hfeeds =>
    rw [hfetched'] at hstep'
    rw [hfeeds] at hsupply
    have hlag := h.supply
    refine .behind _ _ _ ?_ hstep' ⟨rfl, h.moment, h.placed, ?_, extra', ?_,
      .inr ⟨piece, hphase, rfl, fun hne => ⟨_, hself _ hsource', hmore hne⟩⟩⟩
    · exact hlag ▸ hsupply
    · rintro _ ⟨⟩
      exact hshort
    · refine hworld.withSources (hworld.sources.update ?_ ?_)
      · rw [hself _ hsource', hsource]
        exact .some hleads
      · exact fun i hi => ⟨rfl, (hothers source _ i hi).2⟩

/-- Of a file that is not there, both find that it is at its end. -/
theorem Outpaces.abreast_of_missing {most : Nat}
    (h : Outpaces lag s w (s.goto (.gather piece)) w')
    (hphase : s.phase = .doing (.gather piece)) (hworld : w.Twins Eq (Ahead s.job.index []) w')
    (hmost : piece.length + most = s.options.variant.blockSize.length)
    (hsource : w.sources[s.job.index]? = none) (hsource' : w'.sources[s.job.index]? = none) :
    Action.Abreast Outpaces lag s w ((Sender.act s).step (World.surroundings setup) w)
      ((Sender.act (s.goto (.gather piece))).step (World.surroundings setup) w') := by
  have hmoment' : s.moment = w'.moment := h.moment.trans (hworld.moment_eq Wire.covert_eq).symm
  have hsame : s.goto (.gather piece) = s := by
    rw [Party.goto, ← hphase]
  rw [hsame]
  have hstep := step_of_gather hphase h.moment hmost setup
  have hstep' := step_of_gather hphase hmoment' hmost setup
  rw [World.fetch_eq_of_none hsource, fetched_nil] at hstep
  rw [World.fetch_eq_of_none hsource', fetched_nil] at hstep'
  exact .both _ _ w _ w' hstep hstep' ⟨rfl, h.moment,
    (usesQueue.placed_act h.placed).of_step hstep, nofun, [], hworld, .inl ⟨rfl, rfl⟩⟩

/-- While a piece is gathered, the second sender reads a part of it, or both come to its end. -/
theorem Outpaces.abreast_of_gather (h : Outpaces lag s w s' w')
    (hphase : s.phase = .doing (.gather piece)) (hphase' : s' = s.goto (.gather (piece ++ extra)))
    (hworld : w.Twins Eq (Ahead s.job.index extra) w')
    (hmore : extra ≠ [] →
      ∃ source', w'.sources[s.job.index]? = some source' ∧ source'.remaining ≠ []) :
    Action.Abreast Outpaces lag s w ((Sender.act s).step (World.surroundings setup) w)
      ((Sender.act s').step (World.surroundings setup) w') := by
  subst hphase'
  obtain ⟨most', hmost'⟩ := Nat.exists_eq_add_of_lt (h.short _ rfl)
  obtain ⟨most, hmost⟩ : ∃ most, piece.length + most = s.options.variant.blockSize.length := by
    refine ⟨extra.length + most' + 1, ?_⟩
    rw [hmost', List.length_append]
    omega
  have hsources := hworld.sources s.job.index
  rw [if_pos rfl] at hsources
  generalize hsource : w.sources[s.job.index]? = source? at hsources
  generalize hsource' : w'.sources[s.job.index]? = source'? at hsources hmore
  cases hsources with
  | none =>
    obtain rfl : extra = [] := by
      by_contra hne
      obtain ⟨source', hsome, -⟩ := hmore hne
      cases hsome
    rw [List.append_nil] at h ⊢
    exact h.abreast_of_missing hphase hworld hmost hsource hsource'
  | @some source source' hleads =>
    have hmore' : extra ≠ [] → source'.remaining ≠ [] := by
      intro hne
      obtain ⟨source', hsome, hremaining⟩ := hmore hne
      cases hsome
      exact hremaining
    exact h.abreast_of_gathers hphase hworld hmost hmost'.symm hsource hsource'
      (gathers_of_leads hleads hmore' hmost hmost'.symm (Nat.succ_pos most') s.job.index)

/-- The two senders do the same, or the second one reads a part. -/
theorem Outpaces.abreast (h : Outpaces lag s w s' w') :
    Action.Abreast Outpaces lag s w ((Sender.act s).step (World.surroundings setup) w)
      ((Sender.act s').step (World.surroundings setup) w') := by
  by_cases hgather : ∃ piece, s.phase = .doing (.gather piece)
  · obtain ⟨extra, hworld, ⟨rfl, rfl⟩ | ⟨piece, hphase, hphase', hmore⟩⟩ := h.keeps
    · obtain ⟨piece, hphase⟩ := hgather
      refine h.abreast_of_gather hphase ?_ hworld fun hne => absurd rfl hne
      rw [List.append_nil, Party.goto, ← hphase]
    · exact h.abreast_of_gather hphase hphase' hworld hmore
  · exact h.abreast_of_ne_gather fun piece hphase => hgather ⟨piece, hphase⟩

/-- Nothing can be seen of it whether more of a piece has been read. -/
theorem Outpaces.alike (h : Outpaces lag s w s' w') (ending : Option Ending) :
    Alike ⟨ending, s, w⟩ ⟨ending, s', w'⟩ := by
  obtain ⟨extra, hworld, hstate⟩ := h.keeps
  refine ⟨rfl, ?_, ?_, ?_, congrArg Wire.now hworld.wire.symm⟩
  · rcases hstate with ⟨rfl, -⟩ | ⟨piece, -, rfl, -⟩ <;> rfl
  · rw [hworld.others]
  · rw [hworld.others]

end Sender

/-- It does not matter to a sender how its files are read, as long as every reading brings something
before the end of the file or is interrupted. -/
theorem Script.mirrors_of_steady {κ : Type} (setup : Setup κ) (options : Options)
    (files : List FileHeader) (play : Play) {sources : List Source} (sink : κ)
    (h : ∀ source ∈ sources, source.Steady) :
    let w := World.new setup play (sources.map Source.plain) sink
    let w' := World.new setup play sources sink
    Mirrors
      (fun acts => Action.run (World.surroundings setup) Sender.act acts
        (Sender.new options files w.moment) w)
      (fun acts => Action.run (World.surroundings setup) Sender.act acts
        (Sender.new options files w'.moment) w') := by
  intro w w'
  have hworld : w.Twins Eq (Ahead 0 []) w' := by
    refine ⟨rfl, fun i => ?_, rfl⟩
    rw [ite_self]
    change Option.Rel _ (sources.map Source.plain)[i]? sources[i]?
    rw [List.getElem?_map]
    cases hsource : sources[i]? with
    | none => exact .none
    | some source =>
      exact .some ⟨source.plain_plain, _, (h source (List.mem_of_getElem? hsource)).holds, rfl⟩
  refine mirrors_of_simulates Sender.Outpaces.abreast (fun h => h.alike)
    ⟨rfl, rfl, ?_, nofun, [], hworld, .inl ⟨rfl, rfl⟩⟩
  rintro step ⟨⟩
  exact ⟨nofun, nofun⟩

end BlockTransfer
