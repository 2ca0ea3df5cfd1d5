import BlockTransfer.Json.Value
import BlockTransfer.Proofs.Json.Token
import Mathlib.Data.List.Nodup
import Mathlib.Data.List.Perm.Basic

/-!
# Writing values

Every value has a written form that is read back as the value, whatever it contains and however
deep it is. The written objects of the settings are such forms. A member of an object is found
by its key wherever it stands, so the order of the members says nothing.

## Main definitions

* `Value.tokens` and `Value.write`: the tokens and the written form of a value.
* `IsMember`: a written member of an object.

## Main results

* `parse?_write`: a written value is read back.
* `toList_object`: objects that are put together from written members are written forms.
* `find_perm`: looking for a member does not depend on the order.
-/

namespace BlockTransfer.Json

/-! ## Written values -/

mutual

/-- The tokens of a value. -/
def Value.tokens : Value → List Token
  | .null => [.null]
  | .truth b => [.truth b]
  | .number plain => [.number plain]
  | .text contents => [.text contents]
  | .array [] => [.openArray, .closeArray]
  | .array (v :: vs) => .openArray :: v.tokens ++ itemTokens vs
  | .object [] => [.openObject, .closeObject]
  | .object ((k, v) :: ms) => .openObject :: .text k :: .colon :: v.tokens ++ memberTokens ms

/-- The tokens of the items that follow the first one of an array, up to its end. -/
def itemTokens : List Value → List Token
  | [] => [.closeArray]
  | v :: vs => .comma :: v.tokens ++ itemTokens vs

/-- The tokens of the members that follow the first one of an object, up to its end. -/
def memberTokens : Members → List Token
  | [] => [.closeObject]
  | (k, v) :: ms => .comma :: .text k :: .colon :: v.tokens ++ memberTokens ms

end

/-- The written form of a value, without any white space. -/
def Value.write (v : Value) : List Char :=
  v.tokens.flatMap Token.write

/-! ### Their tokens are kept apart -/

/-- Anything may stand behind a token that is no number. -/
theorem isChain_cons_of_isNumber_eq_false {t : Token} {ts : List Token}
    (ht : t.isNumber = false) (hts : ts.IsChain Token.Apart) : (t :: ts).IsChain Token.Apart :=
  hts.cons fun _ _ hnumber => Bool.noConfusion (ht.symm.trans hnumber)

/-- A token may stand in front of others if it or the one behind it is no number. -/
theorem isChain_singleton_append {t : Token} {rest : List Token}
    (hrest : rest.IsChain Token.Apart) (hhead : ∀ b ∈ rest.head?, b.isNumber = false) :
    ([t] ++ rest).IsChain Token.Apart :=
  hrest.cons fun b hb _ => hhead b hb

/-- The items that follow begin with no number. -/
theorem isNumber_of_mem_head?_itemTokens (vs : List Value) (rest : List Token) :
    ∀ b ∈ (itemTokens vs ++ rest).head?, b.isNumber = false := by
  cases vs <;> · rw [itemTokens]; rintro b ⟨⟩; rfl

/-- The members that follow begin with no number. -/
theorem isNumber_of_mem_head?_memberTokens (ms : Members) (rest : List Token) :
    ∀ b ∈ (memberTokens ms ++ rest).head?, b.isNumber = false := by
  rcases ms with _ | ⟨⟨k, v⟩, ms⟩ <;> · rw [memberTokens]; rintro b ⟨⟩; rfl

mutual

/-- The tokens of a value stand in front of others if these do not begin with a number. -/
theorem Value.isChain_tokens_append (v : Value) {rest : List Token}
    (hrest : rest.IsChain Token.Apart) (hhead : ∀ b ∈ rest.head?, b.isNumber = false) :
    (v.tokens ++ rest).IsChain Token.Apart := by
  match v with
  | .null | .truth _ | .number _ | .text _ =>
    exact isChain_singleton_append hrest hhead
  | .array [] | .object [] =>
    exact isChain_cons_of_isNumber_eq_false rfl (isChain_cons_of_isNumber_eq_false rfl hrest)
  | .array (v :: vs) =>
    rw [Value.tokens]
    simp only [List.cons_append, List.append_assoc]
    exact isChain_cons_of_isNumber_eq_false rfl (v.isChain_tokens_append
      (isChain_itemTokens_append vs hrest) (isNumber_of_mem_head?_itemTokens vs rest))
  | .object ((k, v) :: ms) =>
    rw [Value.tokens]
    simp only [List.cons_append, List.append_assoc]
    refine isChain_cons_of_isNumber_eq_false rfl (isChain_cons_of_isNumber_eq_false rfl
      (isChain_cons_of_isNumber_eq_false rfl ?_))
    exact v.isChain_tokens_append (isChain_memberTokens_append ms hrest)
      (isNumber_of_mem_head?_memberTokens ms rest)

/-- The tokens of further items stand in front of others. -/
theorem isChain_itemTokens_append (vs : List Value) {rest : List Token}
    (hrest : rest.IsChain Token.Apart) : (itemTokens vs ++ rest).IsChain Token.Apart := by
  match vs with
  | [] => exact isChain_cons_of_isNumber_eq_false rfl hrest
  | v :: vs =>
    rw [itemTokens]
    simp only [List.cons_append, List.append_assoc]
    exact isChain_cons_of_isNumber_eq_false rfl (v.isChain_tokens_append
      (isChain_itemTokens_append vs hrest) (isNumber_of_mem_head?_itemTokens vs rest))

/-- The tokens of further members stand in front of others. -/
theorem isChain_memberTokens_append (ms : Members) {rest : List Token}
    (hrest : rest.IsChain Token.Apart) : (memberTokens ms ++ rest).IsChain Token.Apart := by
  match ms with
  | [] => exact isChain_cons_of_isNumber_eq_false rfl hrest
  | (k, v) :: ms =>
    rw [memberTokens]
    simp only [List.cons_append, List.append_assoc]
    refine isChain_cons_of_isNumber_eq_false rfl (isChain_cons_of_isNumber_eq_false rfl
      (isChain_cons_of_isNumber_eq_false rfl ?_))
    exact v.isChain_tokens_append (isChain_memberTokens_append ms hrest)
      (isNumber_of_mem_head?_memberTokens ms rest)

end

/-! ### They are read back -/

/-- What begins a value ends no array. -/
theorem Value.exists_tokens_eq_cons (v : Value) :
    ∃ t ts, v.tokens = t :: ts ∧ t ≠ .closeArray := by
  match v with
  | .null | .truth _ | .number _ | .text _ | .array [] | .object [] =>
    exact ⟨_, _, rfl, Token.noConfusion⟩
  | .array (v :: vs) => exact ⟨.openArray, _, by rw [Value.tokens]; rfl, Token.noConfusion⟩
  | .object ((k, v) :: ms) => exact ⟨.openObject, _, by rw [Value.tokens]; rfl, Token.noConfusion⟩

/-- The first item of an array is read as any value is. -/
theorem Value.foldlM_tokens_opened (v : Value) (around : List Container) :
    v.tokens.foldlM Parser.step? (.opened around) =
      v.tokens.foldlM Parser.step? (.value (.array [] :: around)) := by
  obtain ⟨t, ts, htokens, ht⟩ := v.exists_tokens_eq_cons
  have hstep : Parser.step? (.opened around) t = Parser.step? (.value (.array [] :: around)) t := by
    cases t with
    | closeArray => exact absurd rfl ht
    | _ => rfl
  rw [htokens, List.foldlM_cons, List.foldlM_cons, hstep]

mutual

/-- The tokens of a value are read as the value. -/
theorem Value.foldlM_tokens (v : Value) (around : List Container) :
    v.tokens.foldlM Parser.step? (.value around) = some (.complete v around) := by
  match v with
  | .null | .truth _ | .number _ | .text _ | .array [] | .object [] => rfl
  | .array (v :: vs) =>
    have hopen : Parser.step? (.value around) .openArray = some (.opened around) := rfl
    rw [Value.tokens, List.cons_append, List.foldlM_cons, hopen]
    simp only [Option.bind_eq_bind, Option.bind_some]
    rw [List.foldlM_append, v.foldlM_tokens_opened, v.foldlM_tokens]
    exact foldlM_itemTokens vs v [] around
  | .object ((k, v) :: ms) =>
    have hopen : [Token.openObject, .text k, .colon].foldlM Parser.step? (.value around) =
      some (.value (.object [] k :: around)) := rfl
    have hsplit : (Value.object ((k, v) :: ms)).tokens =
      [.openObject, .text k, .colon] ++ v.tokens ++ memberTokens ms := by rw [Value.tokens]; rfl
    rw [hsplit, List.foldlM_append, List.foldlM_append, hopen]
    simp only [Option.bind_eq_bind, Option.bind_some]
    rw [v.foldlM_tokens]
    exact foldlM_memberTokens ms k v [] around

/-- The tokens of further items are read as the rest of the array. -/
theorem foldlM_itemTokens (vs : List Value) (v : Value) (items : List Value)
    (around : List Container) :
    (itemTokens vs).foldlM Parser.step? (.complete v (.array items :: around)) =
      some (.complete (.array (items.reverse ++ v :: vs)) around) := by
  match vs with
  | [] =>
    have hclose : Parser.step? (.complete v (.array items :: around)) .closeArray =
      some (.complete (.array (v :: items).reverse) around) := rfl
    rw [itemTokens, List.foldlM_cons, hclose]
    simp
  | w :: vs =>
    have hcomma : Parser.step? (.complete v (.array items :: around)) .comma =
      some (.value (.array (v :: items) :: around)) := rfl
    rw [itemTokens, List.cons_append, List.foldlM_cons, hcomma]
    simp only [Option.bind_eq_bind, Option.bind_some]
    rw [List.foldlM_append, w.foldlM_tokens]
    simpa using foldlM_itemTokens vs w (v :: items) around

/-- The tokens of further members are read as the rest of the object. -/
theorem foldlM_memberTokens (ms : Members) (k : Option (List Char)) (v : Value)
    (members : Members) (around : List Container) :
    (memberTokens ms).foldlM Parser.step? (.complete v (.object members k :: around)) =
      some (.complete (.object (members.reverse ++ (k, v) :: ms)) around) := by
  match ms with
  | [] =>
    have hclose : Parser.step? (.complete v (.object members k :: around)) .closeObject =
      some (.complete (.object ((k, v) :: members).reverse) around) := rfl
    rw [memberTokens, List.foldlM_cons, hclose]
    simp
  | (l, w) :: ms =>
    have hcomma : [Token.comma, .text l, .colon].foldlM Parser.step?
        (.complete v (.object members k :: around)) =
      some (.value (.object ((k, v) :: members) l :: around)) := rfl
    have hsplit : memberTokens ((l, w) :: ms) =
      [.comma, .text l, .colon] ++ w.tokens ++ memberTokens ms := by rw [memberTokens]; rfl
    rw [hsplit, List.foldlM_append, List.foldlM_append, hcomma]
    simp only [Option.bind_eq_bind, Option.bind_some]
    rw [w.foldlM_tokens]
    simpa using foldlM_memberTokens ms l w ((k, v) :: members) around

end

/-- A written value is read back. -/
theorem parse?_write (v : Value) : parse? v.write = some v := by
  have hapart : v.tokens.IsChain Token.Apart := by
    simpa using v.isChain_tokens_append .nil nofun
  rw [parse?, Value.write, tokens?_flatMap_write hapart, Option.bind_some, v.foldlM_tokens]

/-! ## Written objects -/

/-- A string is written as a value is. -/
theorem toList_quote (text : String) :
    (quote text).toList = (Value.text (some text.toList)).write := by
  simp [quote, Value.write, Value.tokens, Token.write]

/-- A number is written as a value is. -/
theorem toList_decimal (n : Nat) :
    (Numeral.decimal n).toList = (Value.number (some n)).write := by
  simp [Numeral.decimal, Value.write, Value.tokens, Token.write]

/-- A text is a written member of an object. -/
inductive IsMember : String → Option (List Char) × Value → Prop
  | intro (key : String) {written : String} {v : Value} (h : written.toList = v.write) :
    IsMember (member key written) (some key.toList, v)

/-- A member is written as its key, a colon and its value. -/
theorem IsMember.toList {text : String} {k : Option (List Char)} {v : Value}
    (h : IsMember text (k, v)) :
    text.toList = (Token.text k).write ++ ':' :: v.tokens.flatMap Token.write := by
  obtain ⟨key, hwritten⟩ := h
  simp [member, quote, Token.write, hwritten, Value.write]

/-- Members with a comma in front of each are written as further members of an object are. -/
theorem flatMap_toList_of_isMember {texts : List String} {members : Members}
    (h : List.Forall₂ IsMember texts members) :
    (texts.flatMap fun text => ',' :: text.toList) ++ ['}'] =
      (memberTokens members).flatMap Token.write := by
  induction h with
  | nil => rfl
  | cons hfirst _ ih =>
    rw [memberTokens, List.flatMap_cons, List.append_assoc, ih, hfirst.toList]
    simp [Token.write]

/-- Texts with a separator between them are the first one and the others with the separator in
front of each. -/
theorem intercalate_cons_eq_flatMap (separator : Char) (text : List Char)
    (texts : List (List Char)) :
    [separator].intercalate (text :: texts) = text ++ texts.flatMap (separator :: ·) := by
  induction texts generalizing text with
  | nil => simp [List.intercalate]
  | cons next texts ih => simp [List.intercalate_cons_cons, ih]

/-- An object that is put together from written members is written as a value is. -/
theorem toList_object {texts : List String} {members : Members}
    (h : List.Forall₂ IsMember texts members) :
    (object texts).toList = (Value.object members).write := by
  cases h with
  | nil => rfl
  | cons hfirst hrest =>
    have hmore := flatMap_toList_of_isMember hrest
    rw [object, Value.write, Value.tokens]
    simp only [String.toList_append, String.toList_intercalate, List.map_cons]
    change '{' :: [','].intercalate _ ++ ['}'] = _
    rw [intercalate_cons_eq_flatMap, List.flatMap_map, hfirst.toList]
    simp only [List.cons_append, List.append_assoc, List.flatMap_cons, List.flatMap_append,
      hmore, Token.write]
    rfl

/-! ## Looking for members -/

variable {key : String} {members : Members}

/-- Members with other keys are passed over. -/
theorem filter_key_eq_nil (h : ∀ m ∈ members, m.1 ≠ some key.toList) :
    members.filter (fun m => m.1 == some key.toList) = [] := by
  rw [List.filter_eq_nil_iff]
  simpa using h

/-- A member is absent if all keys are others. -/
theorem find_eq_absent (h : ∀ m ∈ members, m.1 ≠ some key.toList) :
    find key members = .absent := by
  rw [find, filter_key_eq_nil h]

/-- A member is found if all keys are different. -/
theorem find_eq_once {v : Value} (hkeys : (members.map Prod.fst).Nodup)
    (h : (some key.toList, v) ∈ members) : find key members = .once v := by
  obtain ⟨before, after, rfl⟩ := List.append_of_mem h
  simp only [List.map_append, List.map_cons, List.nodup_middle, List.nodup_cons, List.mem_append,
    not_or] at hkeys
  obtain ⟨⟨hbefore, hafter⟩, -⟩ := hkeys
  have hne : ∀ ms : Members, some key.toList ∉ ms.map Prod.fst →
      ∀ m ∈ ms, m.1 ≠ some key.toList :=
    fun ms hms m hm heq => hms (List.mem_map.mpr ⟨m, hm, heq⟩)
  rw [find, List.filter_append, List.filter_cons_of_pos (by simp),
    filter_key_eq_nil (hne before hbefore), filter_key_eq_nil (hne after hafter)]
  rfl

/-- A member that must be there is read if all keys are different. -/
theorem field_eq {α : Type} {read : Value → Option α} {v : Value}
    (hkeys : (members.map Prod.fst).Nodup) (h : (some key.toList, v) ∈ members) :
    field read key members = read v := by
  rw [field, find_eq_once hkeys h]

/-- A member that may be absent is read if all keys are different. -/
theorem fieldOr_eq {α : Type} {default : α} {read : Value → Option α} {v : Value}
    (hkeys : (members.map Prod.fst).Nodup) (h : (some key.toList, v) ∈ members) :
    fieldOr default read key members = read v := by
  rw [fieldOr, find_eq_once hkeys h]

/-- Looking for a member does not depend on the order of the members. -/
theorem find_perm {members' : Members} (h : members.Perm members') :
    find key members = find key members' := by
  have hfilter := h.filter (fun m => m.1 == some key.toList)
  rw [find, find]
  generalize members.filter (fun m => m.1 == some key.toList) = found at hfilter ⊢
  generalize members'.filter (fun m => m.1 == some key.toList) = found' at hfilter ⊢
  -- At most one member stands in the same place anyway, and of more than one none is taken.
  match found, found' with
  | [], found' => rw [List.nil_perm.mp hfilter]
  | [m], found' => rw [List.singleton_perm.mp hfilter]
  | _ :: _ :: _, [] => exact absurd hfilter.length_eq (by simp)
  | _ :: _ :: _, [_] => exact absurd hfilter.length_eq (by simp)
  | _ :: _ :: _, _ :: _ :: _ => rfl

/-- Members with other keys do not matter. -/
theorem find_append_of_forall_ne {others : Members}
    (h : ∀ m ∈ others, m.1 ≠ some key.toList) :
    find key (members ++ others) = find key members := by
  rw [find, find, List.filter_append, filter_key_eq_nil h, List.append_nil]

/-- Whether all keys are texts does not depend on the order of the members. -/
theorem keysAreTexts_perm {members' : Members} (h : members.Perm members') :
    keysAreTexts members = keysAreTexts members' :=
  h.all_eq

/-! ## Reading numbers -/

theorem Value.word64_number {n : Nat} (h : n < UInt64.size) :
    Value.word64 (.number (some n)) = some (UInt64.ofNat n) := by
  rw [Value.word64, Value.natBelow, if_pos h, Option.map_some]

theorem Value.word32_number {n : Nat} (h : n < UInt32.size) :
    Value.word32 (.number (some n)) = some (UInt32.ofNat n) := by
  rw [Value.word32, Value.natBelow, if_pos h, Option.map_some]

end BlockTransfer.Json
