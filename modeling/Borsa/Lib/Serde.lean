import Mathlib
import Borsa.Lib.Json

/-!
# Formats

What a serialization format writes for the values of serde's data model, and what it reads where a
value is expected (`Serde.Format`), with the readers and writers of options, sequences, maps and
structs built on it. Each comes with its round trip: what is written is read back.

A format may present the entries of a map and the fields of a struct in another order, so a map is
read back as one with the same entries (`lookup_readMap`).
-/

namespace Serde

/-! ## Maps as they are collected -/

section
universe u v
variable {κ : Type u} {β : Type v} [DecidableEq κ]

/-- The map that a sequence of entries is collected into: of entries with one key, the last. -/
def collect (entries : List (Σ _ : κ, β)) : AList fun _ : κ => β :=
  entries.foldl (fun m e => m.insert e.1 e.2) ∅

theorem lookup_foldl_insert {entries : List (Σ _ : κ, β)} (h : entries.NodupKeys)
    (m : AList fun _ : κ => β) (k : κ) :
    (entries.foldl (fun m e => m.insert e.1 e.2) m).lookup k =
      (entries.dlookup k).or (m.lookup k) := by
  induction entries generalizing m with
  | nil => rfl
  | cons e entries ih =>
    obtain ⟨hnew, hrest⟩ := List.nodupKeys_cons.1 h
    rw [List.foldl_cons, ih hrest]
    rcases eq_or_ne k e.1 with rfl | hk
    · rw [List.dlookup_eq_none.2 hnew, List.dlookup_cons_eq, AList.lookup_insert]
      rfl
    · rw [AList.lookup_insert_ne hk, List.dlookup_cons_ne _ _ hk]

theorem lookup_collect {entries : List (Σ _ : κ, β)} (h : entries.NodupKeys) (k : κ) :
    (collect entries).lookup k = entries.dlookup k := by
  rw [collect, lookup_foldl_insert h, AList.lookup_empty, Option.or_none]

/-- An entry with its value mapped. -/
def mapValue {γ : Type*} (f : β → γ) : (Σ _ : κ, β) → Σ _ : κ, γ := Sigma.map id fun _ b => f b

omit [DecidableEq κ] in
theorem nodupKeys_map_mapValue {γ : Type*} {entries : List (Σ _ : κ, β)} (h : entries.NodupKeys)
    (f : β → γ) : (entries.map (mapValue f)).NodupKeys := by
  rw [List.NodupKeys, List.keys, List.map_map]
  exact h

/-- A map whose values are mapped while it is iterated, in whatever order, and collected again. -/
theorem lookup_collect_map {γ : Type*} (m : AList fun _ : κ => β) {entries : List (Σ _ : κ, β)}
    (hperm : entries.Perm m.entries) (f : β → γ) (k : κ) :
    (collect (entries.map (mapValue f))).lookup k = (m.lookup k).map f := by
  have hkeys : entries.NodupKeys := (List.perm_nodupKeys hperm).2 m.nodupKeys
  rw [lookup_collect (nodupKeys_map_mapValue hkeys f)]
  refine (List.dlookup_map₂ k).trans ?_
  rw [List.perm_dlookup k hkeys hperm]
  rfl

end

/-! ## Formats -/

/-- A format: what it writes for a value, and what it reads where a value of a kind is expected. The
keys of its maps are among the values in `Key`, and it tells the value of a present option from an
absent one unless that value is itself written as an absent option. -/
structure Format (V : Type) where
  bool : Bool → V
  str : String → V
  absent : V
  present : V → V
  seq : List V → V
  tuple : List V → V
  map : List (V × V) → V
  /-- A struct of a name with its fields. -/
  struct : String → List (String × V) → V
  readBool : V → Option Bool
  readStr : V → Option String
  readOption : V → Option (Option V)
  readSeq : V → Option (List V)
  readTuple : ℕ → V → Option (List V)
  readMap : V → Option (List (V × V))
  /-- The fields of a struct, given its name and theirs. -/
  readStruct : String → List String → V → Option (List (String × V))
  Key : V → Prop
  readBool_bool : ∀ b, readBool (bool b) = some b
  readStr_str : ∀ s, readStr (str s) = some s
  readOption_absent : readOption absent = some none
  readOption_present : ∀ {v}, v ≠ absent → readOption (present v) = some (some v)
  seq_ne_absent : ∀ vs, seq vs ≠ absent
  tuple_ne_absent : ∀ vs, tuple vs ≠ absent
  readSeq_seq : ∀ vs, readSeq (seq vs) = some vs
  readTuple_tuple : ∀ vs, readTuple vs.length (tuple vs) = some vs
  exists_readMap : ∀ {entries}, (∀ e ∈ entries, Key e.1) → (entries.map Prod.fst).Nodup →
    ∃ entries', readMap (map entries) = some entries' ∧ entries'.Perm entries
  exists_readStruct : ∀ {name fields}, (fields.map Prod.fst).Nodup →
    ∃ fields', readStruct name (fields.map Prod.fst) (struct name fields) = some fields' ∧
      fields'.Perm fields

namespace Format

variable {V : Type} (F : Format V) {α β γ κ : Type}

/-- A format that reads what is there whatever the reader calls it: a map where an optional map is
expected is a present one, and the name of a struct makes no difference. -/
structure SelfDescribing : Prop where
  readOption_map : ∀ entries, F.readOption (F.map entries) = some (some (F.map entries))
  readStruct_name : ∀ name name' names v, F.readStruct name names v = F.readStruct name' names v

/-! ## Options and sequences -/

/-- An option, as it is written. -/
def writeOption (write : α → V) : Option α → V
  | none => F.absent
  | some a => F.present (write a)

/-- An option, as it is read. -/
def readOptionWith (read : V → Option α) (v : V) : Option (Option α) := do
  match ← F.readOption v with
  | none => return none
  | some v => return some (← read v)

/-- A sequence, as it is written. -/
def writeSeq (write : α → V) (l : List α) : V := F.seq (l.map write)

/-- A sequence, as it is read. -/
def readSeqWith (read : V → Option α) (v : V) : Option (List α) := do
  (← F.readSeq v).mapM read

theorem readOptionWith_writeOption {write : α → V} {read : V → Option β} {f : α → β}
    (h : ∀ a, read (write a) = some (f a)) (hne : ∀ a, write a ≠ F.absent) (o : Option α) :
    F.readOptionWith read (F.writeOption write o) = some (o.map f) := by
  cases o with
  | none => simp [writeOption, readOptionWith, F.readOption_absent]
  | some a => simp [writeOption, readOptionWith, F.readOption_present (hne a), h]

/-- An option is read as it was written. -/
theorem readOptionWith_writeOption_self {write : α → V} {read : V → Option α}
    (h : ∀ a, read (write a) = some a) (hne : ∀ a, write a ≠ F.absent) (o : Option α) :
    F.readOptionWith read (F.writeOption write o) = some o := by
  have h : ∀ a, read (write a) = some (id a) := h
  rw [F.readOptionWith_writeOption h hne, Option.map_id]
  rfl

/-- A list whose items can all be read. -/
theorem mapM_eq_filterMap {read : α → Option β} {l : List α} (h : ∀ a ∈ l, (read a).isSome) :
    l.mapM read = some (l.filterMap read) := by
  induction l with
  | nil => rfl
  | cons a l ih =>
    obtain ⟨ha, hl⟩ := List.forall_mem_cons.1 h
    obtain ⟨b, hb⟩ := Option.isSome_iff_exists.1 ha
    simp [List.mapM_cons, hb, ih hl]

theorem readSeqWith_writeSeq {write : α → V} {read : V → Option β} {f : α → β}
    (h : ∀ a, read (write a) = some (f a)) (l : List α) :
    F.readSeqWith read (F.writeSeq write l) = some (l.map f) := by
  have hread : read ∘ write = fun a => some (f a) := funext h
  rw [readSeqWith, writeSeq, F.readSeq_seq, Option.bind_eq_bind, Option.bind_some, List.mapM_map,
    hread, mapM_eq_filterMap fun _ _ => rfl, List.filterMap_eq_map']

/-- A sequence is read as it was written. -/
theorem readSeqWith_writeSeq_self {write : α → V} {read : V → Option α}
    (h : ∀ a, read (write a) = some a) (l : List α) :
    F.readSeqWith read (F.writeSeq write l) = some l := by
  have h : ∀ a, read (write a) = some (id a) := h
  rw [F.readSeqWith_writeSeq h, List.map_id]

/-! ## Maps -/

/-- A map, as it is written when its entries come in a given order. -/
def writeMap (writeKey : κ → V) (write : β → V) (entries : List (Σ _ : κ, β)) : V :=
  F.map (entries.map fun e => (writeKey e.1, write e.2))

/-- One entry, as it is read. -/
def readEntry (readKey : V → Option κ) (read : V → Option β) (e : V × V) :
    Option (Σ _ : κ, β) := do
  return ⟨← readKey e.1, ← read e.2⟩

/-- A map, as it is read. -/
def readMapWith [DecidableEq κ] (readKey : V → Option κ) (read : V → Option β) (v : V) :
    Option (AList fun _ : κ => β) := do
  return collect (← (← F.readMap v).mapM (readEntry readKey read))

/-- A map is read back entry by entry. -/
theorem lookup_readMap [DecidableEq κ] {writeKey : κ → V} {readKey : V → Option κ} {write : β → V}
    {read : V → Option γ} {f : β → γ} (hkey : ∀ k, readKey (writeKey k) = some k)
    (hKey : ∀ k, F.Key (writeKey k)) (h : ∀ b, read (write b) = some (f b))
    (m : AList fun _ : κ => β) {entries : List (Σ _ : κ, β)} (hperm : entries.Perm m.entries) :
    ∃ m', F.readMapWith readKey read (F.writeMap writeKey write entries) = some m' ∧
      ∀ k, m'.lookup k = (m.lookup k).map f := by
  have hkeys : entries.NodupKeys := (List.perm_nodupKeys hperm).2 m.nodupKeys
  have hinj : Function.Injective writeKey := fun k k' he =>
    Option.some.inj (by rw [← hkey k, ← hkey k', he])
  have hnodup : ((entries.map fun e => (writeKey e.1, write e.2)).map Prod.fst).Nodup := by
    have hmap := List.Nodup.map hinj hkeys
    rw [List.keys, List.map_map] at hmap
    rw [List.map_map]
    exact hmap
  have hKeys : ∀ e ∈ entries.map fun e => (writeKey e.1, write e.2), F.Key e.1 := by
    intro e he
    obtain ⟨e, -, rfl⟩ := List.mem_map.1 he
    exact hKey e.1
  obtain ⟨entries', hread, hperm'⟩ := F.exists_readMap hKeys hnodup
  -- the entries are read in the format's order
  have hentry : ∀ e : Σ _ : κ, β, readEntry readKey read (writeKey e.1, write e.2) =
      some (mapValue f e) := by
    intro e
    simp [readEntry, hkey, h, mapValue, Sigma.map]
  have hsome : ∀ e ∈ entries', (readEntry readKey read e).isSome := by
    intro e he
    obtain ⟨e, -, rfl⟩ := List.mem_map.1 (hperm'.mem_iff.1 he)
    rw [hentry]
    rfl
  have hreadPerm : (entries'.filterMap (readEntry readKey read)).Perm
      (entries.map (mapValue f)) := by
    refine (hperm'.filterMap _).trans (.of_eq ?_)
    rw [List.filterMap_map]
    simp [hentry]
  refine ⟨collect (entries'.filterMap (readEntry readKey read)), ?_, fun k => ?_⟩
  · rw [readMapWith, writeMap, hread, Option.bind_eq_bind, Option.bind_some,
      mapM_eq_filterMap hsome]
    rfl
  · have hkeys' := nodupKeys_map_mapValue hkeys f
    rw [lookup_collect ((List.perm_nodupKeys hreadPerm).2 hkeys'),
      List.perm_dlookup k ((List.perm_nodupKeys hreadPerm).2 hkeys') hreadPerm,
      ← lookup_collect hkeys', lookup_collect_map m hperm]

/-- A map is read where an optional map is expected. -/
theorem SelfDescribing.readOptionWith_writeMap {F : Format V} (hF : F.SelfDescribing)
    (writeKey : κ → V) (write : β → V) (read : V → Option α) (entries : List (Σ _ : κ, β)) :
    F.readOptionWith read (F.writeMap writeKey write entries) =
      (read (F.writeMap writeKey write entries)).map some := by
  rw [readOptionWith, writeMap, hF.readOption_map]
  exact Option.map_eq_bind.symm

/-! ## Structs -/

/-- What a derived reader finds of a field: it may be missing, and may not come twice. -/
def fieldValue (fields : List (String × V)) (name : String) : Option (Option V) :=
  match fields.filter fun field => field.1 == name with
  | [] => some none
  | [field] => some (some field.2)
  | _ => none

/-- A field that must be there. -/
def readField (fields : List (String × V)) (name : String) (read : V → Option α) : Option α := do
  read (← ← fieldValue fields name)

/-- An optional field, which is absent when it is missing. -/
def readOptionField (fields : List (String × V)) (name : String) (read : V → Option α) :
    Option (Option α) := do
  match ← fieldValue fields name with
  | none => return none
  | some v => F.readOptionWith read v

theorem readField_eq {fields : List (String × V)} {name : String} {v : V}
    (h : fieldValue fields name = some (some v)) (read : V → Option α) :
    readField fields name read = read v := by
  simp [readField, h]

theorem readOptionField_eq {fields : List (String × V)} {name : String} {v : V}
    (h : fieldValue fields name = some (some v)) (read : V → Option α) :
    F.readOptionField fields name read = F.readOptionWith read v := by
  simp [readOptionField, h]

/-- A field that was written is found. -/
theorem fieldValue_of_mem {fields : List (String × V)} (hnodup : (fields.map Prod.fst).Nodup)
    {name : String} {v : V} (h : (name, v) ∈ fields) : fieldValue fields name = some (some v) := by
  have hfilter : fields.filter (fun field => field.1 == name) = [(name, v)] := by
    induction fields with
    | nil => cases h
    | cons field fields ih =>
      obtain ⟨hnew, hrest⟩ := List.nodup_cons.1 hnodup
      rcases List.mem_cons.1 h with rfl | h
      · have hnone : fields.filter (fun field => field.1 == name) = [] :=
          List.filter_eq_nil_iff.2 fun x hx hname =>
            hnew (List.mem_map.2 ⟨x, hx, eq_of_beq hname⟩)
        rw [List.filter_cons, if_pos (beq_self_eq_true name), hnone]
      · have hne : ¬(field.1 == name) = true := fun hname =>
          hnew (List.mem_map.2 ⟨(name, v), h, (eq_of_beq hname).symm⟩)
        rw [List.filter_cons, if_neg hne, ih hrest h]
  rw [fieldValue, hfilter]

/-- The fields of a struct are read back. -/
theorem exists_readStruct_fields (name : String) {fields : List (String × V)} {names : List String}
    (hnames : fields.map Prod.fst = names) (hnodup : names.Nodup) :
    ∃ fields', F.readStruct name names (F.struct name fields) = some fields' ∧
      ∀ field ∈ fields, fieldValue fields' field.1 = some (some field.2) := by
  subst hnames
  obtain ⟨fields', hread, hperm⟩ := F.exists_readStruct hnodup
  exact ⟨fields', hread, fun field hfield =>
    fieldValue_of_mem ((hperm.map Prod.fst).nodup_iff.2 hnodup) (hperm.mem_iff.2 hfield)⟩

/-! ## Types that the format writes -/

/-- How a type is written, never as an absent option, and read back. -/
structure Codec (α : Type) where
  serialize : α → V
  deserialize : V → Option α
  deserialize_serialize : ∀ a, deserialize (serialize a) = some a
  serialize_ne_absent : ∀ a, serialize a ≠ F.absent

variable {F} in
/-- An option of such a type is read as it was written. -/
theorem Codec.readOptionWith_writeOption (c : F.Codec α) (o : Option α) :
    F.readOptionWith c.deserialize (F.writeOption c.serialize o) = some o :=
  F.readOptionWith_writeOption_self c.deserialize_serialize c.serialize_ne_absent o

/-- How a type of keys is written and read back. -/
structure KeyCodec (α : Type) extends F.Codec α where
  key_serialize : ∀ a, F.Key (serialize a)

section
variable (write : α → String) (read : String → Option α) (h : ∀ a, read (write a) = some a)

include h in
theorem readStr_bind_str (a : α) : (F.readStr (F.str (write a))).bind read = some a := by
  rw [F.readStr_str, Option.bind_some, h]

/-- Keys that are written as strings. -/
def strKeys (hne : ∀ s, F.str s ≠ F.absent) (hkey : ∀ s, F.Key (F.str s)) : F.KeyCodec α where
  serialize a := F.str (write a)
  deserialize v := (F.readStr v).bind read
  deserialize_serialize := F.readStr_bind_str write read h
  serialize_ne_absent a := hne (write a)
  key_serialize a := hkey (write a)

end

end Format

end Serde

/-! ## JSON -/

namespace Json

/-- What is read where an optional value is expected. -/
def readOption : Json → Option (Option Json)
  | .null => some none
  | v => some (some v)

theorem readOption_of_ne {v : Json} (h : v ≠ .null) : readOption v = some (some v) := by
  cases v with
  | null => exact absurd rfl h
  | _ => rfl

/-- The fields of an object that is written for a map. -/
def ofEntries (entries : List (Json × Json)) : List (String × Json) :=
  entries.map fun e => (e.1.asStr.getD "", e.2)

/-- The entries of a map that is read from an object. -/
def toEntries (fields : List (String × Json)) : List (Json × Json) :=
  fields.map fun field => (.str field.1, field.2)

theorem toEntries_ofEntries {entries : List (Json × Json)}
    (h : ∀ e ∈ entries, ∃ s, e.1 = .str s) : toEntries (ofEntries entries) = entries := by
  rw [toEntries, ofEntries, List.map_map]
  refine (List.map_congr_left fun e he => ?_).trans (List.map_id entries)
  obtain ⟨s, hs⟩ := h e he
  obtain ⟨_, v⟩ := e
  subst hs
  rfl

theorem exists_toEntries_ofEntries {entries : List (Json × Json)}
    (h : ∀ e ∈ entries, ∃ s, e.1 = .str s) (_ : (entries.map Prod.fst).Nodup) :
    ∃ entries', some (toEntries (ofEntries entries)) = some entries' ∧ entries'.Perm entries :=
  ⟨_, rfl, .of_eq (toEntries_ofEntries h)⟩

/-- JSON, as `serde_json` writes and reads it: an option is its value or `null`, and a struct an
object or an array. A key is a string. -/
def format : Serde.Format Json where
  bool := .bool
  str := .str
  absent := .null
  present v := v
  seq := .arr
  tuple := .arr
  map entries := .obj (ofEntries entries)
  struct _ fields := .obj fields
  readBool
    | .bool b => some b
    | _ => none
  readStr := asStr
  readOption := readOption
  readSeq
    | .arr items => some items
    | _ => none
  readTuple n
    | .arr items => if items.length = n then some items else none
    | _ => none
  readMap
    | .obj fields => some (toEntries fields)
    | _ => none
  readStruct _ names
    | .obj fields => some fields
    | .arr items => if items.length = names.length then some (names.zip items) else none
    | _ => none
  Key v := ∃ s, v = .str s
  readBool_bool _ := rfl
  readStr_str _ := rfl
  readOption_absent := rfl
  readOption_present := readOption_of_ne
  seq_ne_absent _ := Json.noConfusion
  tuple_ne_absent _ := Json.noConfusion
  readSeq_seq _ := rfl
  readTuple_tuple _ := if_pos rfl
  exists_readMap := exists_toEntries_ofEntries
  exists_readStruct _ := ⟨_, rfl, .rfl⟩

theorem selfDescribing_format : format.SelfDescribing := ⟨fun _ => rfl, fun _ _ _ _ => rfl⟩

/-- What is read where an optional value is expected and a present one is marked as such. -/
def readMarked : Json → Option (Option Json)
  | .null => some none
  | .arr [.bool true, v] => some (some v)
  | _ => none

/-- JSON whose present options are marked, as formats that do not describe themselves mark them. -/
def markedFormat : Serde.Format Json :=
  { format with
    present v := .arr [.bool true, v]
    readOption := readMarked
    readOption_absent := rfl
    readOption_present _ := rfl
    seq_ne_absent _ := Json.noConfusion
    tuple_ne_absent _ := Json.noConfusion }

/-- What is read of a struct that is written under its name. -/
def readNamed (name : String) : Json → Option (List (String × Json))
  | .obj [(name', .obj fields)] => if name' = name then some fields else none
  | _ => none

theorem exists_readNamed {name : String} {fields : List (String × Json)}
    (_ : (fields.map Prod.fst).Nodup) :
    ∃ fields', readNamed name (.obj [(name, .obj fields)]) = some fields' ∧ fields'.Perm fields :=
  ⟨fields, if_pos rfl, .rfl⟩

/-- JSON whose structs are written and read under their names. -/
def namedFormat : Serde.Format Json :=
  { format with
    struct name fields := .obj [(name, .obj fields)]
    readStruct name _ := readNamed name
    exists_readStruct := exists_readNamed }

end Json
