import BlockTransfer.Header.Json
import BlockTransfer.Options.Json
import BlockTransfer.Proofs.Json.Value
import BlockTransfer.Proofs.Time.Rfc3339

/-!
# Settings, options and headers as documents

What is written as JSON is read back. Settings may also be given in part, in any order and among
other members: what is not given has its default value, and the limits are checked in order.

## Main definitions

* `Config.Setting`: the settings, with their names and values.
* `Config.entries`: the members of an object that give some of the settings.

## Main results

* `documents_read_back`: settings, options and headers are read back, and settings given in part
  are filled up with the defaults.
-/

namespace BlockTransfer

namespace Config

/-! ## Settings -/

/-- A setting of a transfer session. -/
inductive Setting
  | handshakeTimeout
  | responseTimeout
  | charTimeout
  | purgeTimeout
  | maxRetries
  | crcHandshakeAttempts
  deriving DecidableEq

namespace Setting

/-- The settings in the order in which they are written. -/
def all : List Setting :=
  [handshakeTimeout, responseTimeout, charTimeout, purgeTimeout, maxRetries,
    crcHandshakeAttempts]

/-- The key under which a setting is written. -/
def name : Setting → String
  | handshakeTimeout => "handshake_timeout_ms"
  | responseTimeout => "response_timeout_ms"
  | charTimeout => "char_timeout_ms"
  | purgeTimeout => "purge_timeout_ms"
  | maxRetries => "max_retries"
  | crcHandshakeAttempts => "crc_handshake_attempts"

/-- The values of a setting are below this number. -/
def bound : Setting → Nat
  | handshakeTimeout | responseTimeout | charTimeout | purgeTimeout => UInt64.size
  | maxRetries | crcHandshakeAttempts => UInt32.size

theorem mem_all (s : Setting) : s ∈ all := by
  cases s <;> decide

/-- Every setting has a key of its own. -/
theorem name_injective {s s' : Setting} (h : s.name = s'.name) : s = s' := by
  cases s <;> cases s' <;> simp_all [name]

end Setting

/-- The value of a setting. -/
def value (config : Config) : Setting → Nat
  | .handshakeTimeout => config.handshakeTimeout.toNat
  | .responseTimeout => config.responseTimeout.toNat
  | .charTimeout => config.charTimeout.toNat
  | .purgeTimeout => config.purgeTimeout.toNat
  | .maxRetries => config.maxRetries.toNat
  | .crcHandshakeAttempts => config.crcHandshakeAttempts.toNat

/-- Every value of a setting can be given. -/
theorem value_lt_bound (config : Config) (s : Setting) : config.value s < s.bound := by
  cases s with
  | handshakeTimeout | responseTimeout | charTimeout | purgeTimeout =>
    exact UInt64.toNat_lt_size _
  | maxRetries | crcHandshakeAttempts => exact UInt32.toNat_lt_size _

/-- A configuration is determined by the values of its settings. -/
theorem eq_of_value_eq {config config' : Config} (h : ∀ s, config.value s = config'.value s) :
    config = config' := by
  have hhandshake := UInt64.toNat_inj.mp (h .handshakeTimeout)
  have hresponse := UInt64.toNat_inj.mp (h .responseTimeout)
  have hchar := UInt64.toNat_inj.mp (h .charTimeout)
  have hpurge := UInt64.toNat_inj.mp (h .purgeTimeout)
  have hretries := UInt32.toNat_inj.mp (h .maxRetries)
  have hattempts := UInt32.toNat_inj.mp (h .crcHandshakeAttempts)
  cases config
  cases config'
  simp_all only

/-! ## Members that give settings -/

/-- The members of an object that give some of the settings. -/
def entries (given : Setting → Option Nat) : Json.Members :=
  Setting.all.filterMap fun s =>
    (given s).map fun n => (some s.name.toList, .number (some n))

/-- A member gives a setting by its key. -/
theorem mem_entries {given : Setting → Option Nat} {m : Option (List Char) × Json.Value} :
    m ∈ entries given ↔ ∃ s n, given s = some n ∧ m = (some s.name.toList, .number (some n)) := by
  simp only [entries, List.mem_filterMap, Option.map_eq_some_iff]
  constructor
  · rintro ⟨s, -, n, hn, rfl⟩
    exact ⟨s, n, hn, rfl⟩
  · rintro ⟨s, n, hn, rfl⟩
    exact ⟨s, s.mem_all, n, hn, rfl⟩

/-- No setting is given twice. -/
theorem nodup_keys_entries (given : Setting → Option Nat) :
    ((entries given).map Prod.fst).Nodup := by
  rw [entries, List.map_filterMap]
  refine List.Nodup.filterMap (fun s s' key hs hs' => ?_) (by decide)
  simp only [Option.map_map, Option.mem_def, Option.map_eq_some_iff, Function.comp_apply] at hs hs'
  obtain ⟨n, -, rfl⟩ := hs
  obtain ⟨n', -, heq⟩ := hs'
  exact Setting.name_injective (String.toList_inj.mp (Option.some.inj heq.symm))

/-- An object gives these settings, each of them once, in any order and mixed with members that
have other keys. -/
structure Gives (members : Json.Members) (given : Setting → Option Nat) : Prop where
  /-- The values are in the range of their settings. -/
  fits : ∀ s n, given s = some n → n < s.bound
  /-- Apart from the order, the members are those of the settings and others. -/
  mixed : ∃ others : Json.Members,
    (∀ m ∈ others, ∃ key, m.1 = some key ∧ ∀ s : Setting, key ≠ s.name.toList) ∧
      members.Perm (entries given ++ others)

namespace Gives

variable {members : Json.Members} {given : Setting → Option Nat}

/-- A given setting is found and another one is not, wherever the members stand and whatever
stands between them. -/
theorem find_name (h : Gives members given) (s : Setting) :
    Json.find s.name members = (given s).elim .absent fun n => .once (.number (some n)) := by
  obtain ⟨others, hothers, hmembers⟩ := h.mixed
  have hne : ∀ m ∈ others, m.1 ≠ some s.name.toList := by
    rintro m hm heq
    obtain ⟨key, hkey, hnames⟩ := hothers m hm
    exact hnames s (Option.some.inj (hkey.symm.trans heq))
  rw [Json.find_perm hmembers, Json.find_append_of_forall_ne hne]
  cases hgiven : given s with
  | none =>
    refine Json.find_eq_absent fun m hm heq => ?_
    obtain ⟨s', n, hn, rfl⟩ := mem_entries.mp hm
    have hs : s' = s := Setting.name_injective (String.toList_inj.mp (Option.some.inj heq))
    rw [hs, hgiven] at hn
    cases hn
  | some n =>
    exact Json.find_eq_once (nodup_keys_entries given) (mem_entries.mpr ⟨s, n, hgiven, rfl⟩)

/-- The keys of settings are texts, as those of the other members are. -/
theorem keysAreTexts (h : Gives members given) : Json.keysAreTexts members = true := by
  obtain ⟨others, hothers, hmembers⟩ := h.mixed
  rw [Json.keysAreTexts_perm hmembers, Json.keysAreTexts, List.all_append, Bool.and_eq_true,
    List.all_eq_true, List.all_eq_true]
  constructor
  · intro m hm
    obtain ⟨s, n, -, rfl⟩ := mem_entries.mp hm
    rfl
  · intro m hm
    obtain ⟨key, hkey, -⟩ := hothers m hm
    rw [hkey]
    rfl

/-- A setting is read as it is given, or as the default. -/
theorem exists_fieldOr_eq (h : Gives members given) (s : Setting) {α : Type} {toNat : α → Nat}
    {read : Json.Value → Option α} (default : α)
    (hread : ∀ n < s.bound, ∃ a, read (.number (some n)) = some a ∧ toNat a = n) :
    ∃ a, Json.fieldOr default read s.name members = some a ∧
      toNat a = (given s).getD (toNat default) := by
  rw [Json.fieldOr, h.find_name s]
  cases hgiven : given s with
  | none => exact ⟨default, rfl, rfl⟩
  | some n => exact hread n (h.fits s n hgiven)

/-- What the members give is read, and the rest has the default values. -/
theorem exists_ofMembers?_eq (h : Gives members given) :
    ∃ config, ofMembers? members = some config ∧
      ∀ s, config.value s = (given s).getD (({} : Config).value s) := by
  have hword64 : ∀ n < UInt64.size,
      ∃ a, Json.Value.word64 (.number (some n)) = some a ∧ a.toNat = n := fun n hn =>
    ⟨_, Json.Value.word64_number hn, UInt64.toNat_ofNat_of_lt hn⟩
  have hword32 : ∀ n < UInt32.size,
      ∃ a, Json.Value.word32 (.number (some n)) = some a ∧ a.toNat = n := fun n hn =>
    ⟨_, Json.Value.word32_number hn, UInt32.toNat_ofNat_of_lt hn⟩
  let base : Config := {}
  obtain ⟨handshake, hhandshake, hhandshake'⟩ :=
    h.exists_fieldOr_eq .handshakeTimeout base.handshakeTimeout hword64
  obtain ⟨response, hresponse, hresponse'⟩ :=
    h.exists_fieldOr_eq .responseTimeout base.responseTimeout hword64
  obtain ⟨char, hchar, hchar'⟩ := h.exists_fieldOr_eq .charTimeout base.charTimeout hword64
  obtain ⟨purge, hpurge, hpurge'⟩ := h.exists_fieldOr_eq .purgeTimeout base.purgeTimeout hword64
  obtain ⟨retries, hretries, hretries'⟩ :=
    h.exists_fieldOr_eq .maxRetries base.maxRetries hword32
  obtain ⟨attempts, hattempts, hattempts'⟩ :=
    h.exists_fieldOr_eq .crcHandshakeAttempts base.crcHandshakeAttempts hword32
  simp only [Setting.name] at hhandshake hresponse hchar hpurge hretries hattempts
  refine ⟨⟨handshake, response, char, purge, retries, attempts⟩, ?_, fun s => ?_⟩
  · simp only [ofMembers?, h.keysAreTexts, if_true]
    simp only [base] at hhandshake hresponse hchar hpurge hretries hattempts
    rw [hhandshake, hresponse, hchar, hpurge, hretries, hattempts]
    rfl
  · cases s <;> assumption

end Gives

/-! ## Limits -/

/-- The place of a limit in the order in which limits are checked. -/
def Limit.place : Limit → Nat
  | .handshakeTimeout => 0
  | .responseTimeout => 1
  | .charTimeout => 2
  | .maxRetries => 3

/-- Different limits have different places. -/
theorem Limit.place_injective {limit limit' : Limit} (h : limit.place = limit'.place) :
    limit = limit' := by
  cases limit <;> cases limit' <;> simp_all [place]

/-- All limits before the one that is reported are positive. -/
theorem pos_of_firstZero?_eq_some {config : Config} {limit : Limit}
    (h : config.firstZero? = some limit) :
    config.limit limit = 0 ∧
      ∀ earlier : Limit, earlier.place < limit.place → 0 < config.limit earlier := by
  obtain ⟨hzero, before, after, hlimits, hbefore⟩ := List.find?_eq_some_iff_append.mp h
  have hsorted : limits.Pairwise fun a b => a.place < b.place := by decide
  rw [hlimits, List.pairwise_append] at hsorted
  have hafter := (List.pairwise_cons.mp hsorted.2.1).1
  refine ⟨by simpa using hzero, fun earlier hplace => ?_⟩
  have hmem : earlier ∈ before ++ limit :: after := by
    rw [← hlimits]
    cases earlier <;> decide
  rcases List.mem_append.mp hmem with hin | hin
  · exact Nat.pos_of_ne_zero (by simpa using hbefore earlier hin)
  -- The limit itself and those behind it have no earlier place.
  rcases List.mem_cons.mp hin with rfl | hin
  · omega
  · have := hafter earlier hin
    omega

/-- The limit that is reported is the first one that is zero. -/
theorem firstZero?_eq_some_iff {config : Config} {limit : Limit} :
    config.firstZero? = some limit ↔ config.limit limit = 0 ∧
      ∀ earlier : Limit, earlier.place < limit.place → 0 < config.limit earlier := by
  refine ⟨pos_of_firstZero?_eq_some, fun ⟨hzero, hearlier⟩ => ?_⟩
  cases hfirst : config.firstZero? with
  | none =>
    have := firstZero?_eq_none_iff.mp hfirst limit
    omega
  | some found =>
    obtain ⟨hfound, hbefore⟩ := pos_of_firstZero?_eq_some hfirst
    rcases Nat.lt_trichotomy found.place limit.place with hlt | heq | hgt
    · have := hearlier found hlt
      omega
    · rw [Limit.place_injective heq]
    · have := hbefore limit hgt
      omega

/-- A document with settings is accepted if no limit is zero, and otherwise the first limit that
is zero is reported. -/
theorem load_of_ofValue? {config : Config} {text : List Char} {v : Json.Value}
    (hparse : Json.parse? text = some v) (hconfig : ofValue? v = some config) :
    (load text = .ok config ↔ ∀ limit, 0 < config.limit limit) ∧
      ∀ limit, load text = .error (.invalidValue limit) ↔ config.limit limit = 0 ∧
        ∀ earlier : Limit, earlier.place < limit.place → 0 < config.limit earlier := by
  have hread : (Json.parse? text).bind ofValue? = some config := by
    rw [hparse, Option.bind_some, hconfig]
  simp only [← firstZero?_eq_none_iff, ← firstZero?_eq_some_iff]
  cases hfirst : config.firstZero? with
  | none => simp [load, hread, hfirst]
  | some limit => simp [load, hread, hfirst]

/-! ## Written settings -/

/-- Written settings are an object that gives all of them. -/
theorem toList_toJson (config : Config) :
    config.toJson.toList = (Json.Value.object (entries fun s => some (config.value s))).write :=
  Json.toList_object
    (.cons (.intro Setting.handshakeTimeout.name (Json.toList_decimal _)) <|
      .cons (.intro Setting.responseTimeout.name (Json.toList_decimal _)) <|
      .cons (.intro Setting.charTimeout.name (Json.toList_decimal _)) <|
      .cons (.intro Setting.purgeTimeout.name (Json.toList_decimal _)) <|
      .cons (.intro Setting.maxRetries.name (Json.toList_decimal _)) <|
      .cons (.intro Setting.crcHandshakeAttempts.name (Json.toList_decimal _)) .nil)

/-- The written settings give all of them. -/
theorem gives_entries (config : Config) :
    Gives (entries fun s => some (config.value s)) fun s => some (config.value s) where
  fits s n h := Option.some.inj h ▸ config.value_lt_bound s
  mixed := ⟨[], nofun, by simp⟩

/-- Written settings are read back, whether or not they pass the check. -/
theorem ofValue?_entries (config : Config) :
    ofValue? (.object (entries fun s => some (config.value s))) = some config := by
  obtain ⟨config', hread, hvalue⟩ := config.gives_entries.exists_ofMembers?_eq
  rw [ofValue?, hread, eq_of_value_eq hvalue]

end Config

/-! ## Options and headers -/

namespace Options

/-- The members of written options. -/
def members (options : Options) : Json.Members :=
  [(some "protocol".toList, .text (some options.protocol.name.toList)),
    (some "variant".toList, .text (some options.variant.name.toList)),
    (some "text_mode".toList, .truth options.textMode),
    (some "config".toList, .object (Config.entries fun s => some (options.config.value s)))]

/-- Written options are an object with their members. -/
theorem toList_toJson (options : Options) :
    options.toJson.toList = (Json.Value.object options.members).write :=
  Json.toList_object
    (.cons (.intro "protocol" (Json.toList_quote _)) <|
      .cons (.intro "variant" (Json.toList_quote _)) <|
      .cons (.intro "text_mode" (by cases options.textMode <;> rfl)) <|
      .cons (.intro "config" options.config.toList_toJson) .nil)

/-- The members of written options have different keys. -/
theorem nodup_keys_members (options : Options) : (options.members.map Prod.fst).Nodup := by
  simp only [members, List.map_cons, List.map_nil]
  decide

/-- Written options are read back. -/
theorem ofJson?_toJson (options : Options) : ofJson? options.toJson.toList = some options := by
  have hkeys := options.nodup_keys_members
  have hprotocol : Json.field protocolOf? "protocol" options.members = some options.protocol := by
    rw [Json.field_eq hkeys (.head _), protocolOf?, Json.Value.choice, String.ofList_toList]
    simp
  have hvariant : Json.field variantOf? "variant" options.members = some options.variant := by
    rw [Json.field_eq hkeys (.tail _ (.head _)), variantOf?, Json.Value.choice,
      String.ofList_toList]
    simp
  have htextMode : Json.fieldOr false Json.Value.bool "text_mode" options.members =
      some options.textMode :=
    Json.fieldOr_eq hkeys (.tail _ (.tail _ (.head _)))
  have hconfig : Json.fieldOr {} Config.ofValue? "config" options.members = some options.config :=
    (Json.fieldOr_eq hkeys (.tail _ (.tail _ (.tail _ (.head _))))).trans
      options.config.ofValue?_entries
  have htexts : Json.keysAreTexts options.members = true := rfl
  rw [ofJson?, toList_toJson, Json.parse?_write, Option.bind_some, ofValue?, if_pos htexts,
    hprotocol, hvariant, htextMode, hconfig]
  rfl

end Options

namespace FileHeader

/-- A value that may be missing, as a member of a written header. -/
def optional {α : Type} (value : α → Json.Value) : Option α → Json.Value
  | none => .null
  | some a => value a

theorem toList_writeOptional {α : Type} {write : α → String} (value : α → Json.Value)
    (h : ∀ a, (write a).toList = (value a).write) (a? : Option α) :
    (writeOptional write a?).toList = (optional value a?).write := by
  cases a? with
  | none =>
    change "null".toList = Json.Value.null.write
    rfl
  | some a => exact h a

/-- A value that may be missing is read back if it is not written as one that is missing. -/
theorem orNull_optional {α : Type} {read : Json.Value → Option α} {value : α → Json.Value}
    (hread : ∀ a, read (value a) = some a) (hnull : ∀ a, value a ≠ .null) (a? : Option α) :
    Json.orNull read (optional value a?) = some a? := by
  cases a? with
  | none => rfl
  | some a =>
    rw [optional, Json.orNull, hread, Option.map_some]
    exact hnull a

/-- A written length. -/
def lengthValue (n : UInt64) : Json.Value :=
  .number (some n.toNat)

/-- A written modification time. -/
def modifiedValue (t : Timestamp) : Json.Value :=
  .text (some (Rfc3339.write t).toList)

/-- A written mode. -/
def modeValue (n : UInt32) : Json.Value :=
  .number (some n.toNat)

/-- The members of a written header. -/
def members (header : FileHeader) : Json.Members :=
  [(some "name".toList, .text (some header.name.toList)),
    (some "length".toList, optional lengthValue header.length),
    (some "modified".toList, optional modifiedValue header.modified),
    (some "mode".toList, optional modeValue header.mode)]

/-- A written header is an object with its members. -/
theorem toList_toJson (header : FileHeader) :
    header.toJson.toList = (Json.Value.object header.members).write := by
  have hlength := toList_writeOptional lengthValue
    (fun n : UInt64 => Json.toList_decimal n.toNat) header.length
  have hmodified := toList_writeOptional modifiedValue
    (fun t => Json.toList_quote (Rfc3339.write t)) header.modified
  have hmode := toList_writeOptional modeValue
    (fun n : UInt32 => Json.toList_decimal n.toNat) header.mode
  exact Json.toList_object
    (.cons (.intro "name" (Json.toList_quote header.name)) <| .cons (.intro "length" hlength) <|
      .cons (.intro "modified" hmodified) <| .cons (.intro "mode" hmode) .nil)

/-- The members of a written header have different keys. -/
theorem nodup_keys_members (header : FileHeader) : (header.members.map Prod.fst).Nodup := by
  simp only [members, List.map_cons, List.map_nil]
  decide

/-- A written header is read back. -/
theorem ofJson?_toJson (header : FileHeader) : ofJson? header.toJson.toList = some header := by
  have hkeys := header.nodup_keys_members
  have hname : Json.field Json.Value.string "name" header.members = some header.name := by
    rw [Json.field_eq hkeys (.head _), Json.Value.string, String.ofList_toList]
  have hlength : Json.fieldOr none (Json.orNull Json.Value.word64) "length" header.members =
      some header.length := by
    rw [Json.fieldOr_eq hkeys (.tail _ (.head _))]
    refine orNull_optional (fun n => ?_) (fun _ => Json.Value.noConfusion) _
    rw [lengthValue, Json.Value.word64_number (UInt64.toNat_lt_size n), UInt64.ofNat_toNat]
  have hmodified : Json.fieldOr none (Json.orNull timestampOf?) "modified" header.members =
      some header.modified := by
    rw [Json.fieldOr_eq hkeys (.tail _ (.tail _ (.head _)))]
    refine orNull_optional (fun t => ?_) (fun _ => Json.Value.noConfusion) _
    rw [modifiedValue, timestampOf?, Rfc3339.read?_write]
  have hmode : Json.fieldOr none (Json.orNull Json.Value.word32) "mode" header.members =
      some header.mode := by
    rw [Json.fieldOr_eq hkeys (.tail _ (.tail _ (.tail _ (.head _))))]
    refine orNull_optional (fun n => ?_) (fun _ => Json.Value.noConfusion) _
    rw [modeValue, Json.Value.word32_number (UInt32.toNat_lt_size n), UInt32.ofNat_toNat]
  have htexts : Json.keysAreTexts header.members = true := rfl
  rw [ofJson?, toList_toJson, Json.parse?_write, Option.bind_some, ofValue?, if_pos htexts,
    hname, hlength, hmodified, hmode]
  rfl

end FileHeader

/-! ## Documents -/

/-- Settings that pass the check, options and headers are read back from what is written of them.
An object that gives some of the settings can be written down, and however it is written, it is read
as these settings with the defaults for the rest, whatever the order of its members; it is accepted
if no limit is zero in the end, and otherwise the first limit that is zero is reported. -/
theorem documents_read_back :
    (∀ config : Config, config.firstZero? = none →
      Config.load config.toJson.toList = .ok config) ∧
    (∀ options : Options, Options.ofJson? options.toJson.toList = some options) ∧
    (∀ header : FileHeader, FileHeader.ofJson? header.toJson.toList = some header) ∧
    ∀ (given : Config.Setting → Option Nat) (members : Json.Members), Config.Gives members given →
      Json.parse? (Json.Value.object members).write = some (.object members) ∧
      ∀ text : List Char, Json.parse? text = some (.object members) →
        ∃ config : Config, (∀ s, config.value s = (given s).getD (({} : Config).value s)) ∧
          (Config.load text = .ok config ↔ ∀ limit, 0 < config.limit limit) ∧
          ∀ limit, Config.load text = .error (.invalidValue limit) ↔ config.limit limit = 0 ∧
            ∀ earlier : Config.Limit, earlier.place < limit.place → 0 < config.limit earlier := by
  refine ⟨fun config hvalid => ?_, Options.ofJson?_toJson, FileHeader.ofJson?_toJson,
    fun given members hgives => ⟨Json.parse?_write _, fun text hparse => ?_⟩⟩
  · have hparse := Json.parse?_write (.object (Config.entries fun s => some (config.value s)))
    rw [← config.toList_toJson] at hparse
    exact (Config.load_of_ofValue? hparse config.ofValue?_entries).1.mpr
      (Config.firstZero?_eq_none_iff.mp hvalid)
  · obtain ⟨config, hread, hvalue⟩ := hgives.exists_ofMembers?_eq
    exact ⟨config, hvalue, Config.load_of_ofValue? hparse hread⟩

/-- The settings of an object are read whatever else it contains, and the one that is set to zero
is reported. -/
theorem documents_read_back_zero_char_timeout :
    ({} : Config).firstZero? = none ∧ Config.load ({} : Config).toJson.toList = .ok {} ∧
    Config.load "\x7b\"note\": [-1.5],\n\"max_retries\": 7, \"char_timeout_ms\":0\x7d".toList =
      .error (.invalidValue .charTimeout) := by
  have hvalid : ({} : Config).firstZero? = none := by decide
  have hparse : Json.parse?
      "\x7b\"note\": [-1.5],\n\"max_retries\": 7, \"char_timeout_ms\":0\x7d".toList =
        some (.object [(some "note".toList, .array [.number none]),
          (some "max_retries".toList, .number (some 7)),
          (some "char_timeout_ms".toList, .number (some 0))]) := by
    rfl
  have hgives : Config.Gives
      [(some "note".toList, .array [.number none]), (some "max_retries".toList, .number (some 7)),
        (some "char_timeout_ms".toList, .number (some 0))]
      (fun s => if s = .charTimeout then some 0 else if s = .maxRetries then some 7 else none) := by
    refine ⟨fun s n hn => ?_, [(some "note".toList, .array [.number none])], ?_, ?_⟩
    · have hvalue : n ≤ 7 := by grind
      have hbound : 7 < s.bound := by cases s <;> decide
      omega
    · intro m hm
      rw [List.mem_singleton.mp hm]
      exact ⟨_, rfl, fun s => by cases s <;> decide⟩
    · exact List.reverse_perm [_, _, _]
  obtain ⟨config, hvalue, -, hload⟩ := (documents_read_back.2.2.2 _ _ hgives).2 _ hparse
  refine ⟨hvalid, documents_read_back.1 _ hvalid, (hload .charTimeout).mpr ?_⟩
  -- The limits before it have their default values.
  have hhandshake : config.limit .handshakeTimeout = 3000 := hvalue .handshakeTimeout
  have hresponse : config.limit .responseTimeout = 3000 := hvalue .responseTimeout
  refine ⟨hvalue .charTimeout, fun earlier hplace => ?_⟩
  cases earlier with
  | handshakeTimeout | responseTimeout => omega
  | charTimeout | maxRetries => exact absurd hplace (by decide)

end BlockTransfer
