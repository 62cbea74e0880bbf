import AstDump.Json.Form
import AstDump.Proofs.JsonLayout

/-!
# Records read back from JSON

The tokens of a value spell it wherever a value may stand, in an array, behind a key or alone, so that the
reader can be followed from the leaves outwards. A record is read by the names of its keys, and so the
order of its keys does not matter; blanks do not matter as every layout has the same tokens.

Results:
* `Spells.array`, `Spells.object`: arrays and objects from what they hold.
* `Means.list`, `means_recordTokens`: lists and records, a record with its keys in any order.
* `Means.decode?`: what tokens mean is read from every layout of them.
* `decode?_of_written`: lists of records.
-/

namespace AstDump.Json

/-! ## Tokens that spell a value -/

/-- The tokens are legible, and the reader takes them for the value wherever it waits for one. -/
structure Spells (ts : List Token) (v : Value) : Prop where
  legible : Legible ts
  run : ∀ opened stack rest,
    ReadState.run (.value opened stack) (ts ++ rest) = ReadState.run (.next v stack) rest

theorem Spells.parse? {ts : List Token} {v : Value} (h : Spells ts v) {cs : List Char}
    (hcs : Layout ts cs) : Value.parse? cs = some v := by
  have hrun := h.run false [] []
  rw [List.append_nil] at hrun
  rw [Value.parse?, h.legible.tokenize hcs, Option.bind_some, Value.ofTokens?, hrun]
  rfl

theorem spells_number (n : Nat) :
    Spells [.number (Nat.toDigits 10 n)] (.number (Nat.toDigits 10 n)) where
  legible := ⟨List.forall_mem_singleton.2 ⟨n, rfl⟩, .singleton _⟩
  run _ _ _ := rfl

theorem spells_string {s : List Char} (hs : ∀ c ∈ s, isPlain c) : Spells [.string s] (.string s) where
  legible := legible_nil.cons hs rfl
  run _ _ _ := rfl

theorem legible_commaSeparated {tss : List (List Token)} (h : ∀ ts ∈ tss, Legible ts) :
    Legible (commaSeparated tss) := by
  fun_induction commaSeparated tss with
  | case1 => exact legible_nil
  | case2 ts => exact h ts List.mem_cons_self
  | case3 ts tss hne ih =>
    obtain ⟨hts, htss⟩ := List.forall_mem_cons.1 h
    exact hts.append_cons (ih htss) trivial rfl

theorem commaSeparated_cons_cons (ts ts' : List Token) (tss : List (List Token)) :
    commaSeparated (ts :: ts' :: tss) = ts ++ .comma :: commaSeparated (ts' :: tss) := rfl

/-- The items of an array, read after those that it holds already. -/
theorem run_items {ts : List Token} {v : Value} {tss : List (List Token)} {vs : List Value}
    (hv : Spells ts v) (hvs : List.Forall₂ Spells tss vs) (opened : Bool) (items : List Value)
    (stack : List Frame) (rest : List Token) :
    ReadState.run (.value opened (.array items :: stack))
        (commaSeparated (ts :: tss) ++ .bracketClose :: rest) =
      ReadState.run (.next (.array (items.reverse ++ v :: vs)) stack) rest := by
  induction hvs generalizing ts v opened items with
  | nil =>
    rw [commaSeparated, hv.run]
    simp [ReadState.run, ReadState.step]
  | @cons ts' v' tss vs hv' hvs ih =>
    rw [commaSeparated_cons_cons, List.append_assoc, hv.run, List.cons_append]
    simp only [ReadState.run, ReadState.step]
    rw [ih hv']
    simp

/-- An array of what its items spell. -/
theorem Spells.array {tss : List (List Token)} {vs : List Value} (h : List.Forall₂ Spells tss vs) :
    Spells (.bracketOpen :: commaSeparated tss ++ [.bracketClose]) (.array vs) where
  legible := by
    have htss : ∀ ts ∈ tss, Legible ts := by
      induction h with
      | nil => exact nofun
      | cons hv _ ih => exact List.forall_mem_cons.2 ⟨hv.legible, ih⟩
    exact (legible_commaSeparated htss).enclose trivial rfl trivial rfl
  run opened stack rest := by
    rw [List.append_assoc, List.cons_append, List.singleton_append]
    cases h with
    | nil => rfl
    | cons hv hvs => exact run_items hv hvs true [] stack rest

section Object

variable {ι : Type} {key : ι → String} {tokensAt : ι → List Token} {valueAt : ι → Value}
  (hkey : ∀ i, ∀ c ∈ (key i).toList, isPlain c) (hvalue : ∀ i, Spells (tokensAt i) (valueAt i))

include hvalue

theorem run_field (i : ι) (opened : Bool) (fields : List (List Char × Value)) (stack : List Frame)
    (rest : List Token) :
    ReadState.run (.key opened fields stack) (fieldTokens (key i) (tokensAt i) ++ rest) =
      ReadState.run (.next (valueAt i) (.object fields (key i).toList :: stack)) rest :=
  (hvalue i).run false (.object fields (key i).toList :: stack) rest

/-- The fields of an object, read after those that it holds already. -/
theorem run_fields (i : ι) (is : List ι) (opened : Bool) (fields : List (List Char × Value))
    (stack : List Frame) (rest : List Token) :
    ReadState.run (.key opened fields stack)
        (commaSeparated ((i :: is).map fun i => fieldTokens (key i) (tokensAt i)) ++
          .braceClose :: rest) =
      ReadState.run (.next (.object (fields.reverse ++
        (i :: is).map fun i => ((key i).toList, valueAt i))) stack) rest := by
  induction is generalizing i opened fields with
  | nil =>
    rw [List.map_singleton, commaSeparated, run_field hvalue]
    simp [ReadState.run, ReadState.step]
  | cons i' is ih =>
    have hrest := ih i' false (((key i).toList, valueAt i) :: fields)
    rw [List.map_cons] at hrest
    rw [List.map_cons, List.map_cons, commaSeparated_cons_cons, List.append_assoc, run_field hvalue,
      List.cons_append]
    simp only [ReadState.run, ReadState.step]
    rw [hrest]
    simp

include hkey

/-- An object of what its fields spell, under plain keys. -/
theorem Spells.object (i : ι) (is : List ι) :
    Spells (.braceOpen :: commaSeparated ((i :: is).map fun i => fieldTokens (key i) (tokensAt i)) ++
        [.braceClose])
      (.object ((i :: is).map fun i => ((key i).toList, valueAt i))) where
  legible := by
    have hfields : ∀ ts ∈ (i :: is).map fun i => fieldTokens (key i) (tokensAt i), Legible ts := by
      intro ts hts
      obtain ⟨i, -, rfl⟩ := List.mem_map.1 hts
      have hcolon : Legible (.colon :: tokensAt i) := (hvalue i).legible.cons trivial rfl
      exact hcolon.cons (hkey i) rfl
    exact (legible_commaSeparated hfields).enclose trivial rfl trivial rfl
  run opened stack rest := by
    rw [List.append_assoc, List.cons_append, List.singleton_append]
    exact run_fields hvalue i is true [] stack rest

end Object

/-! ## Tokens that mean something -/

/-- The tokens spell a value that is read as `a`. -/
def Means {α : Type} [Form α] (ts : List Token) (a : α) : Prop :=
  ∃ v, Spells ts v ∧ ofValue? v = some a

/-- What tokens mean is read from every layout of them. -/
theorem Means.decode? {α : Type} [Form α] {ts : List Token} {a : α} (h : Means ts a) {text : String}
    (htext : Layout ts text.toList) : decode? text = some a := by
  obtain ⟨v, hv, ha⟩ := h
  rw [Json.decode?, hv.parse? htext, Option.bind_some, ha]

theorem means_word (w : UInt32) : Means (tokens w) w := by
  refine ⟨_, spells_number w.toNat, ?_⟩
  have hdigits : (Nat.toDigits 10 w.toNat).all Char.isDigit := by
    rw [List.all_eq_true]
    intro c hc
    exact Nat.isDigit_of_mem_toDigits (by decide) (by decide) hc
  have hnatural : natural? (Nat.toDigits 10 w.toNat) = some w.toNat := by
    rw [natural?, if_pos hdigits, Nat.ofDigitChars_toDigits (by decide) (by decide)]
  simp only [ofValue?, hnatural]
  rw [if_pos w.toNat_lt_size, UInt32.ofNat_toNat]

theorem means_dumpId (d : DumpId) : Means (tokens d) d := by
  obtain ⟨v, hv, hw⟩ := means_word d.raw
  refine ⟨v, hv, ?_⟩
  show (ofValue? v).map DumpId.mk = some d
  rw [hw]
  rfl

/-- A name without characters that need an escape. -/
def PlainName (name : String) : Prop := ∀ c ∈ name.toList, isPlain c

instance (name : String) : Decidable (PlainName name) :=
  List.decidableBAll (isPlain ·) name.toList

theorem nameOf?_toList {name : String} (h : PlainName name) : nameOf? name.toList = some name := by
  rw [nameOf?, unescape?_of_plain h, Option.map_some, String.ofList_toList]

theorem plainName_typeKindName (k : TypeKind) : PlainName (typeKindName k) := by
  cases k <;> decide

theorem means_typeKind (k : TypeKind) : Means (tokens k) k := by
  refine ⟨_, spells_string (plainName_typeKindName k), ?_⟩
  have hname := nameOf?_toList (plainName_typeKindName k)
  have hfind : TypeKind.all.find? (typeKindName · == typeKindName k) = some k := by
    cases k <;> decide
  show (nameOf? (typeKindName k).toList).bind _ = some k
  rw [hname, Option.bind_some, hfind]

theorem means_plainRecordKind {k : RecordKind} {name : String} (hname : PlainName name)
    (hk : plainRecordKind? name = some k) : Means [nameToken name] k := by
  refine ⟨_, spells_string hname, ?_⟩
  show (nameOf? name.toList).bind plainRecordKind? = some k
  rw [nameOf?_toList hname, Option.bind_some, hk]

theorem means_recordKind (k : RecordKind) : Means (tokens k) k := by
  cases k with
  | type k =>
    obtain ⟨v, hv, hk⟩ := means_typeKind k
    have hname : PlainName "Type" := by decide
    have hkeys : ∀ _ : Unit, ∀ c ∈ "Type".toList, isPlain c := fun _ => hname
    refine ⟨_, Spells.object hkeys (fun _ => hv) () [], ?_⟩
    show recordKindOf? (.object [("Type".toList, v)]) = _
    simp only [recordKindOf?, nameOf?_toList hname, if_true, hk, Option.map_some]
  | qualType => exact means_plainRecordKind (by decide) rfl
  | stmt => exact means_plainRecordKind (by decide) rfl
  | decl => exact means_plainRecordKind (by decide) rfl

/-- A list of what its items mean. -/
theorem Means.list {α : Type} [Form α] {tss : List (List Token)} {as : List α}
    (h : List.Forall₂ Means tss as) :
    Means (.bracketOpen :: commaSeparated tss ++ [.bracketClose]) as := by
  have hitems : ∃ vs, List.Forall₂ Spells tss vs ∧ vs.mapM ofValue? = some as := by
    induction h with
    | nil => exact ⟨[], .nil, rfl⟩
    | cons hts _ ih =>
      obtain ⟨v, hv, ha⟩ := hts
      obtain ⟨vs, hvs, has⟩ := ih
      exact ⟨v :: vs, .cons hv hvs, by simp [ha, has]⟩
  obtain ⟨vs, hvs, has⟩ := hitems
  exact ⟨_, Spells.array hvs, has⟩

theorem means_children (ds : List DumpId) : Means (tokens ds) ds := by
  apply Means.list
  rw [List.forall₂_map_left_iff]
  exact List.forall₂_same.2 fun d _ => means_dumpId d

/-! ## Records in any order of keys -/

/-- One of the three parts of a record. -/
inductive Part where
  | id
  | kind
  | children
  deriving DecidableEq, Repr

namespace Part

/-- The parts in the order in which a record is written. -/
def all : List Part := [.id, .kind, .children]

/-- The key of a part. -/
def key : Part → String
  | .id => "id"
  | .kind => "kind"
  | .children => "children"

/-- The tokens of a part. -/
def tokensOf (r : Record) : Part → List Token
  | .id => tokens r.id
  | .kind => tokens r.kind
  | .children => tokens r.children

theorem plainName_key (p : Part) : PlainName p.key := by cases p <;> decide

end Part

/-- The tokens of a record with its parts in some order. -/
def recordTokens (r : Record) (order : List Part) : List Token :=
  .braceOpen :: commaSeparated (order.map fun p => fieldTokens p.key (p.tokensOf r)) ++ [.braceClose]

/-- The keys of an object are found wherever they stand. -/
theorem uniqueField?_of_perm {order : List Part} (horder : order.Perm Part.all) (valueAt : Part → Value)
    (p : Part) :
    uniqueField? p.key (order.map fun q => (q.key, valueAt q)) = some (valueAt p) := by
  have honly : order.filter (·.key == p.key) = [p] := by
    have hperm := horder.filter (·.key == p.key)
    have hall : Part.all.filter (·.key == p.key) = [p] := by cases p <;> decide
    rw [hall] at hperm
    exact List.perm_singleton.1 hperm
  rw [uniqueField?, List.filter_map]
  simp only [Function.comp_def, honly, List.map_cons, List.map_nil]

theorem namedFields?_map (order : List Part) (valueAt : Part → Value) :
    namedFields? (order.map fun p => (p.key.toList, valueAt p)) =
      some (order.map fun p => (p.key, valueAt p)) := by
  unfold namedFields?
  induction order with
  | nil => rfl
  | cons p order ih => simp [ih, nameOf?_toList p.plainName_key]

/-- A record is read in any order of its keys. -/
theorem means_recordTokens (r : Record) {order : List Part} (horder : order.Perm Part.all) :
    Means (recordTokens r order) r := by
  obtain ⟨id, hid, hid'⟩ := means_dumpId r.id
  obtain ⟨kind, hkind, hkind'⟩ := means_recordKind r.kind
  obtain ⟨children, hchildren, hchildren'⟩ := means_children r.children
  let valueAt : Part → Value
    | .id => id
    | .kind => kind
    | .children => children
  have hvalue : ∀ p, Spells (p.tokensOf r) (valueAt p) := by
    intro p
    cases p
    · exact hid
    · exact hkind
    · exact hchildren
  obtain ⟨p, order', rfl⟩ : ∃ p order', order = p :: order' := by
    cases order with
    | nil => exact absurd horder.length_eq (by decide)
    | cons p order' => exact ⟨p, order', rfl⟩
  refine ⟨_, Spells.object Part.plainName_key hvalue p order', ?_⟩
  have hat := uniqueField?_of_perm horder valueAt
  have hid'' : uniqueField? "id" _ = some id := hat .id
  have hkind'' : uniqueField? "kind" _ = some kind := hat .kind
  have hchildren'' : uniqueField? "children" _ = some children := hat .children
  show recordOf? _ = some r
  simp only [recordOf?, namedFields?_map, hid'', hkind'', hchildren'', recordOfParts?, hid', hkind',
    hchildren']

/-- The tokens are those of the records, each with its keys in an order of its own. -/
def Written (rs : List Record) (ts : List Token) : Prop :=
  ∃ tss, List.Forall₂ (fun r ts => ∃ order : List Part, order.Perm Part.all ∧ ts = recordTokens r order)
      rs tss ∧
    ts = .bracketOpen :: commaSeparated tss ++ [.bracketClose]

theorem Written.means {rs : List Record} {ts : List Token} (h : Written rs ts) : Means ts rs := by
  obtain ⟨tss, htss, rfl⟩ := h
  apply Means.list
  refine htss.flip.imp fun ts r hts => ?_
  obtain ⟨order, horder, rfl⟩ := hts
  exact means_recordTokens r horder

theorem written_tokens (rs : List Record) : Written rs (tokens rs) := by
  refine ⟨rs.map tokens, ?_, rfl⟩
  rw [List.forall₂_map_right_iff]
  exact List.forall₂_same.2 fun r _ => ⟨Part.all, .refl _, rfl⟩

theorem layout_encode {α : Type} [Form α] (a : α) : Layout (tokens a) (encode a).toList := by
  rw [encode, String.toList_ofList]
  exact layout_flatMap_spell _

/-- **Main result.** Records are read back from their text, and from every text that has their tokens
    with any blanks between them and with the keys of each record in any order. So different lists of
    records have different texts. -/
theorem decode?_of_written (rs : List Record) :
    decode? (encode rs) = some rs ∧
    (∀ (ts : List Token) (text : String), Written rs ts → Layout ts text.toList →
      decode? text = some rs) ∧
    ∀ rs' : List Record, encode rs = encode rs' → rs = rs' := by
  have hencode : ∀ rs : List Record, decode? (encode rs) = some rs := fun rs =>
    (written_tokens rs).means.decode? (layout_encode rs)
  refine ⟨hencode rs, fun ts text hts htext => hts.means.decode? htext, ?_⟩
  intro rs' heq
  have hread := hencode rs
  rw [heq, hencode rs'] at hread
  exact (Option.some.inj hread).symm

/-- The blanks are the tab, the line feed, the carriage return and the space. -/
example : (List.range 0x80).filter (fun n => isSpace (Char.ofNat n)) = [0x09, 0x0A, 0x0D, 0x20] := by
  decide

/-- A pointer with the greatest id, with blanks after the opening of the list and the keys of the record
    reversed. -/
theorem decode?_of_written_reversed :
    decode? "[ \n\x7b\"children\":[1,2],\"kind\":\x7b\"Type\":\"Pointer\"\x7d,\"id\":4294967295\x7d]" =
      some [(⟨.invalid, .type .pointer, [⟨1⟩, ⟨2⟩]⟩ : Record)] := by
  have hblanks : ∀ c ∈ [' ', '\n'], isSpace c := by simp [isSpace]
  have hnone : ∀ c ∈ ([] : List Char), isSpace c := List.forall_mem_nil _
  have hreversed : [Part.children, .kind, .id].Perm Part.all := by decide
  exact (decode?_of_written _).2.1 _ _ ⟨_, .cons ⟨_, hreversed, rfl⟩ .nil, rfl⟩
    (.cons hnone (.cons hblanks (layout_flatMap_spell _)))

end AstDump.Json
