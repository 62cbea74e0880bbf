import AstDump.Proofs.Complete

/-!
# What a dump depends on

A dump looks at a node only through its `View`: the kind of its record, its children, and the nodes
beside them. If every node that can be reached from some roots stands in a second arena too, under
another id, then the dumps of the two arenas are the same up to the ids, and in sequence the same.

Results:
* `Tour.relocate`: a walk in the second arena makes the same moves.
* `Arena.Relocates.recordsIn_eq`: and leads to the same records.
* `dumpRoots_relocate`: a dump of roots.
-/

namespace AstDump

open Move

/-! ## Views -/

/-- What a dump takes from a node: the kind of its record, its children, and the nodes that are dumped
    beside them, both in order. -/
structure View where
  kind : RecordKind
  children : List NodeId
  beside : List NodeId
  deriving DecidableEq, Repr

/-- The view with other ids. -/
def View.map (p : NodeId → NodeId) (v : View) : View :=
  ⟨v.kind, v.children.map p, v.beside.map p⟩

/-- What a dump takes from the node with id `self`. -/
def Node.view (node : Node) (self : NodeId) : View :=
  ⟨node.recordKind, node.children self, node.beside⟩

/-- What a dump takes from the node that an id names. -/
def Arena.view? (a : Arena) (n : NodeId) : Option View := (a.node? n).map (·.view n)

/-- The nodes differ at most in what a dump of the node with id `self` does not look at: qualifiers, the
    name of the class within a kind, whether a type without sugar has no link or one to itself, and the
    desugared form of a record or enumeration. -/
inductive Node.Alike (self : NodeId) : Node → Node → Prop
  | type {t t' : TypeNode} (hshape : t'.shape = t.shape)
      (hsugar : t.shape.kind = .tag ∨
        ∀ d, d ≠ self → (t'.desugared = some d ↔ t.desugared = some d)) :
      Alike self (.type t) (.type t')
  | qualType (u : NodeId) (q q' : Qualifiers) : Alike self (.qualType u q) (.qualType u q')
  | stmt (c c' : ClassName) (cs : List NodeId) : Alike self (.stmt c cs) (.stmt c' cs)
  | decl (c c' : ClassName) (cs : List NodeId) : Alike self (.decl c cs) (.decl c' cs)

theorem TypeNode.childrenAs_eq {t t' : TypeNode} {self : NodeId} (hshape : t'.shape = t.shape)
    (hsugar : ∀ d, d ≠ self → (t'.desugared = some d ↔ t.desugared = some d)) (k : TypeKind) :
    t'.childrenAs self k = t.childrenAs self k := by
  have htarget : t'.sugarTarget self = t.sugarTarget self := by
    refine Option.ext fun d => ?_
    rw [sugarTarget_eq_some_iff, sugarTarget_eq_some_iff]
    exact and_congr_left (hsugar d)
  unfold childrenAs
  congr 1
  funext k
  simp only [added, hshape, ← toList_sugarTarget, htarget]

theorem Node.Alike.view_eq {self : NodeId} {node node' : Node} (h : node.Alike self node') :
    node'.view self = node.view self := by
  cases h with
  | @type t t' hshape hsugar =>
    have hchildren : t'.children self = t.children self := by
      unfold TypeNode.children
      rw [hshape]
      obtain htag | hsugar := hsugar
      · rw [if_pos htag, if_pos htag]
      · rw [TypeNode.childrenAs_eq hshape hsugar]
    simp only [Node.view, Node.recordKind, Node.children, Node.beside, hshape, hchildren]
  | qualType u q q' => rfl
  | stmt c c' cs => rfl
  | decl c c' cs => rfl

/-! ## Arenas with the same nodes under other ids -/

/-- The nodes that can be reached from `roots` in the arena `a` stand in the arena `b` too, each under
    the id that `p` gives it, and no two under the same. -/
structure Arena.Relocates (a b : Arena) (roots : List NodeId) (p : NodeId → NodeId) : Prop where
  inj : ∀ m n, a.ReachedFrom roots m → a.ReachedFrom roots n → p m = p n → m = n
  view : ∀ n, a.ReachedFrom roots n → b.view? (p n) = (a.view? n).map (View.map p)

/-- The move at another node. -/
def Move.map (p : NodeId → NodeId) : Move → Move
  | .enter n => .enter (p n)
  | .leave n => .leave (p n)

section Moves

variable (p : NodeId → NodeId) (ms : List Move)

@[simp] theorem Move.entered_map : entered (ms.map (Move.map p)) = (entered ms).map p := by
  induction ms with
  | nil => rfl
  | cons m ms ih => cases m <;> simp [Move.map, ih]

@[simp] theorem Move.left_map : left (ms.map (Move.map p)) = (left ms).map p := by
  induction ms with
  | nil => rfl
  | cons m ms ih => cases m <;> simp [Move.map, ih]

end Moves

variable {a b : Arena} {roots seen order out ns : List NodeId} {p : NodeId → NodeId} {n : NodeId}
  {node : Node} {ms : List Move} {s : IdScheme}

theorem Arena.ReachedFrom.tail (h : a.ReachedFrom roots n) {m : NodeId} (hm : m ∈ a.followed n) :
    a.ReachedFrom roots m := by
  obtain ⟨r, hr, hreach⟩ := h
  exact ⟨r, hr, hreach.tail hm⟩

theorem Arena.ReachedFrom.trans {m : NodeId} (h : ∀ n ∈ ns, a.ReachedFrom roots n)
    (hm : a.ReachedFrom ns m) : a.ReachedFrom roots m := by
  obtain ⟨n, hn, hreach⟩ := hm
  obtain ⟨r, hr, hreach'⟩ := h n hn
  exact ⟨r, hr, hreach'.trans hreach⟩

namespace Arena.Relocates

/-- A node that can be reached stands in the second arena. -/
theorem exists_node (h : a.Relocates b roots p) (hn : a.ReachedFrom roots n)
    (hnode : a.node? n = some node) :
    ∃ node', b.node? (p n) = some node' ∧ node'.view (p n) = (node.view n).map p := by
  have hview := h.view n hn
  rw [view?, view?, hnode, Option.map_some, Option.map_some, Option.map_eq_some_iff] at hview
  exact hview

/-- The node leads to the same nodes there. -/
theorem followed_eq (h : a.Relocates b roots p) (hn : a.ReachedFrom roots n)
    (hnode : a.node? n = some node) : b.followed (p n) = (a.followed n).map p := by
  obtain ⟨node', hnode', hview⟩ := h.exists_node hn hnode
  rw [Arena.followed_eq hnode, Arena.followed_eq hnode', Node.followed, Node.followed,
    List.map_append]
  exact congrArg₂ (· ++ ·) (congrArg View.children hview) (congrArg View.beside hview)

theorem mem_map_iff (h : a.Relocates b roots p) (hn : a.ReachedFrom roots n)
    (hseen : ∀ m ∈ seen, a.ReachedFrom roots m) : p n ∈ seen.map p ↔ n ∈ seen := by
  constructor
  · intro hmem
    obtain ⟨m, hm, heq⟩ := List.mem_map.1 hmem
    rwa [← h.inj m n (hseen m hm) hn heq]
  · exact List.mem_map_of_mem

end Arena.Relocates

/-- A walk through nodes that can be reached makes the same moves in the second arena. -/
theorem Tour.relocate (tour : Tour a seen ns ms) (h : a.Relocates b roots p)
    (hseen : ∀ n ∈ seen, a.ReachedFrom roots n) (hns : ∀ n ∈ ns, a.ReachedFrom roots n) :
    Tour b (seen.map p) (ns.map p) (ms.map (Move.map p)) := by
  induction tour with
  | done seen => exact .done _
  | pass hn _ ih =>
    exact .pass (List.mem_map_of_mem hn) (ih hseen fun m hm => hns m (List.mem_cons_of_mem _ hm))
  | @visit seen ns n node inner ms hn hnode inside _ ihin ihrest =>
    have hreached := hns n List.mem_cons_self
    obtain ⟨node', hnode', -⟩ := h.exists_node hreached hnode
    have hfollowed : ∀ m ∈ a.followed n, a.ReachedFrom roots m := fun m hm => hreached.tail hm
    have hseen' : ∀ m ∈ seen ++ [n], a.ReachedFrom roots m := by
      intro m hm
      obtain hm | hm := List.mem_append.1 hm
      · exact hseen m hm
      · exact List.mem_singleton.1 hm ▸ hreached
    have hseen'' : ∀ m ∈ seen ++ [n] ++ entered inner, a.ReachedFrom roots m := by
      intro m hm
      obtain hm | hm := List.mem_append.1 hm
      · exact hseen' m hm
      · exact Arena.ReachedFrom.trans hfollowed (inside.reachedFrom m hm)
    have hin := ihin hseen' hfollowed
    have hrest := ihrest hseen'' fun m hm => hns m (List.mem_cons_of_mem _ hm)
    rw [← h.followed_eq hreached hnode] at hin
    simp only [List.map_append, List.map_cons, List.map_nil] at hin hrest ⊢
    refine .visit ?_ hnode' hin ?_
    · rwa [h.mem_map_iff hreached hseen]
    · rwa [Move.entered_map]

/-! ## Records under other ids -/

/-- The record with other ids. -/
def Record.mapIds (f : DumpId → DumpId) (r : Record) : Record := ⟨f r.id, r.kind, r.children.map f⟩

/-- The summary with other ids. -/
def Summary.mapIds (f : DumpId → DumpId) (s : Summary) : Summary := ⟨s.roots.map f, s.records⟩

/-- The dump id of a node by its position, when nodes get other ids. -/
def DumpId.relocate (p : NodeId → NodeId) (d : DumpId) : DumpId := ⟨(p ⟨d.raw⟩).raw⟩

/-- What becomes of a dump id when nodes get other ids: an id in sequence stays. -/
def IdScheme.relocate (s : IdScheme) (p : NodeId → NodeId) (d : DumpId) : DumpId :=
  match s with
  | .sequential => d
  | .nodeIndex => d.relocate p

/-- A map that tells `n` from the other items of a list keeps the position of `n`. -/
theorem idxOf_map_of_inj (hinj : ∀ m ∈ order, p m = p n → m = n) :
    (order.map p).idxOf (p n) = order.idxOf n := by
  induction order with
  | nil => rfl
  | cons m order ih =>
    have hrest := ih fun m hm => hinj m (List.mem_cons_of_mem _ hm)
    by_cases hm : m = n
    · subst hm
      simp
    · have hpm : p m ≠ p n := fun heq => hm (hinj m List.mem_cons_self heq)
      rw [List.map_cons, List.idxOf_cons_ne _ hpm, List.idxOf_cons_ne _ hm, hrest]

namespace Arena.Relocates

theorem idIn_eq (h : a.Relocates b roots p) (hn : a.ReachedFrom roots n)
    (horder : ∀ m ∈ order, a.ReachedFrom roots m) :
    s.idIn (order.map p) (p n) = s.relocate p (s.idIn order n) := by
  cases s with
  | sequential =>
    simp only [IdScheme.idIn, IdScheme.relocate]
    rw [idxOf_map_of_inj fun m hm => h.inj m n (horder m hm) hn]
  | nodeIndex => rfl

theorem recordIn_eq (h : a.Relocates b roots p) (hn : a.ReachedFrom roots n)
    (horder : ∀ m ∈ order, a.ReachedFrom roots m) (hnode : a.node? n = some node) {node' : Node}
    (hview : node'.view (p n) = (node.view n).map p) :
    node'.recordIn s (order.map p) (p n) = (node.recordIn s order n).mapIds (s.relocate p) := by
  have hkind : node'.recordKind = node.recordKind := congrArg View.kind hview
  have hchildren : node'.children (p n) = (node.children n).map p := congrArg View.children hview
  have hids : ∀ m ∈ node.children n,
      s.idIn (order.map p) (p m) = s.relocate p (s.idIn order m) := by
    intro m hm
    refine h.idIn_eq (hn.tail ?_) horder
    rw [Arena.followed_eq hnode]
    exact List.mem_append_left _ hm
  simp only [Node.recordIn, Record.mapIds, hkind, hchildren, List.map_map, h.idIn_eq hn horder,
    Record.mk.injEq, true_and]
  exact List.map_congr_left hids

/-- The records of nodes that can be reached are the same in the second arena, up to ids. -/
theorem recordsIn_eq (h : a.Relocates b roots p) (horder : ∀ m ∈ order, a.ReachedFrom roots m)
    (hout : ∀ n ∈ out, a.ReachedFrom roots n ∧ ∃ node, a.node? n = some node) :
    (b.recordsIn s (order.map p) (out.map p)).map Prod.snd =
      ((a.recordsIn s order out).map Prod.snd).map (Record.mapIds (s.relocate p)) := by
  induction out with
  | nil => rfl
  | cons n out ih =>
    obtain ⟨hn, node, hnode⟩ := hout n List.mem_cons_self
    obtain ⟨node', hnode', hview⟩ := h.exists_node hn hnode
    rw [List.map_cons, recordsIn_cons hnode, recordsIn_cons hnode', List.map_cons, List.map_cons,
      List.map_cons, ih fun m hm => hout m (List.mem_cons_of_mem _ hm),
      h.recordIn_eq hn horder hnode hview]

end Arena.Relocates

/-! ## Dumps of both arenas -/

theorem Record.map_mapIds_self (rs : Array Record) : rs.map (mapIds fun d => d) = rs := by
  have hself : mapIds (fun d => d) = fun r => r := by
    funext r
    simp [mapIds]
  rw [hself, Array.map_id']

theorem Summary.mapIds_self (s : Summary) : s.mapIds (fun d => d) = s := by
  simp [mapIds]

theorem IdScheme.relocate_sequential (p : NodeId → NodeId) :
    sequential.relocate p = fun d => d := rfl

/-- Nodes that keep their ids keep their dump ids. -/
theorem IdScheme.relocate_self (s : IdScheme) : s.relocate (fun n => n) = fun d => d := by
  cases s <;> rfl

/-- A dump of the second arena is that of the first, up to ids. -/
theorem Arena.Relocates.dumpRoots_eq (h : a.Relocates b roots p) (ha : a.Sound) (hb : b.Sound)
    (hroots : ∀ n ∈ roots, a.contains n) {config : Config} {summary : Summary}
    (hsummary : (dumpRoots a roots MemorySink.empty config).result = .ok summary) :
    (dumpRoots b (roots.map p) MemorySink.empty config).result =
        .ok (summary.mapIds (config.idScheme.relocate p)) ∧
      (dumpRoots b (roots.map p) MemorySink.empty config).sink.records =
        (dumpRoots a roots MemorySink.empty config).sink.records.map
          (Record.mapIds (config.idScheme.relocate p)) := by
  have hreached : ∀ n ∈ roots, a.ReachedFrom roots n := fun n hn =>
    ⟨n, hn, Relation.ReflTransGen.refl⟩
  have hroots' : ∀ n ∈ roots.map p, b.contains n := by
    intro n hn
    obtain ⟨m, hm, rfl⟩ := List.mem_map.1 hn
    obtain ⟨node, hnode⟩ := exists_node_of_lt (of_decide_eq_true (hroots m hm))
    obtain ⟨node', hnode', -⟩ := h.exists_node (hreached m hm) hnode
    exact decide_eq_true (index_lt_of_node? hnode')
  obtain ⟨ms, tour, hresult, hrecords⟩ := exists_dumpRoots_memory ha config hroots
  obtain ⟨ms', tour', hresult', hrecords'⟩ := exists_dumpRoots_memory hb config hroots'
  -- The second walk is the first at other nodes.
  obtain rfl : ms' = ms.map (Move.map p) :=
    tour'.unique (tour.relocate h (by simp) hreached)
  have horder : ∀ n ∈ entered ms, a.ReachedFrom roots n := tour.reachedFrom
  have hout : ∀ n ∈ left ms, a.ReachedFrom roots n ∧ ∃ node, a.node? n = some node := by
    intro n hn
    have hn' := tour.perm.mem_iff.1 hn
    exact ⟨horder n hn', tour.orderly.exists_node n hn'⟩
  obtain rfl := Except.ok.inj (hresult.symm.trans hsummary)
  refine ⟨?_, ?_⟩
  · rw [hresult', Move.entered_map, Move.left_map, List.length_map, List.map_map, Summary.mapIds,
      List.map_map]
    have hids : ∀ n ∈ roots, config.idScheme.idIn ((entered ms).map p) (p n) =
        config.idScheme.relocate p (config.idScheme.idIn (entered ms) n) := fun n hn =>
      h.idIn_eq (hreached n hn) horder
    exact congrArg (fun ids => Except.ok (Summary.mk ids _)) (List.map_congr_left hids)
  · apply Array.ext'
    rw [hrecords', Array.toList_map, hrecords, Move.entered_map, Move.left_map,
      h.recordsIn_eq horder hout]

/-- **Main result.** Let `a` and `b` be arenas that `finish` returned. A dump of roots of `a` into
    memory succeeds. If the nodes that can be reached from the roots stand in `b` under the ids that
    `p` gives them, a dump of the roots there gives the same records and the same summary in sequence,
    and by position the same with each id replaced by the one that `p` gives. If these nodes of `a`
    and `b` are alike under the same ids, the dumps are the same. -/
theorem dumpRoots_relocate (ha : a.Finished) (hb : b.Finished) (roots : List NodeId)
    (hroots : ∀ n ∈ roots, a.contains n) (config : Config) :
    ∃ summary, (dumpRoots a roots MemorySink.empty config).result = .ok summary ∧
      (∀ p, a.Relocates b roots p →
        (config.idScheme = .sequential →
          (dumpRoots b (roots.map p) MemorySink.empty config).result = .ok summary ∧
            (dumpRoots b (roots.map p) MemorySink.empty config).sink.records =
              (dumpRoots a roots MemorySink.empty config).sink.records) ∧
        (config.idScheme = .nodeIndex →
          (dumpRoots b (roots.map p) MemorySink.empty config).result =
              .ok (summary.mapIds (DumpId.relocate p)) ∧
            (dumpRoots b (roots.map p) MemorySink.empty config).sink.records =
              (dumpRoots a roots MemorySink.empty config).sink.records.map
                (Record.mapIds (DumpId.relocate p)))) ∧
      ((∀ n, a.ReachedFrom roots n →
          ∃ node node', a.node? n = some node ∧ b.node? n = some node' ∧ node.Alike n node') →
        (dumpRoots b roots MemorySink.empty config).result = .ok summary ∧
          (dumpRoots b roots MemorySink.empty config).sink.records =
            (dumpRoots a roots MemorySink.empty config).sink.records) := by
  obtain ⟨ms, -, hsummary, -⟩ := exists_dumpRoots_memory ha.sound config hroots
  refine ⟨_, hsummary, fun p h => ?_, fun halike => ?_⟩
  · obtain ⟨hresult, hrecords⟩ := h.dumpRoots_eq ha.sound hb.sound hroots hsummary
    constructor
    · intro hscheme
      rw [hresult, hrecords, hscheme, IdScheme.relocate_sequential, Summary.mapIds_self,
        Record.map_mapIds_self]
      exact ⟨rfl, rfl⟩
    · intro hscheme
      rw [hresult, hrecords, hscheme]
      exact ⟨rfl, rfl⟩
  · have h : a.Relocates b roots (fun n => n) := by
      refine ⟨fun m n _ _ heq => heq, fun n hn => ?_⟩
      obtain ⟨node, node', hnode, hnode', hview⟩ := halike n hn
      rw [Arena.view?, Arena.view?, hnode, hnode', Option.map_some, Option.map_some,
        Option.map_some, hview.view_eq, View.map, List.map_id', List.map_id']
    obtain ⟨hresult, hrecords⟩ := h.dumpRoots_eq ha.sound hb.sound hroots hsummary
    rw [List.map_id'] at hresult hrecords
    rw [hresult, hrecords, IdScheme.relocate_self, Summary.mapIds_self, Record.map_mapIds_self]
    exact ⟨rfl, rfl⟩

/-! ## A record described from its end on -/

/-- Calls that describe the linked record from its end on, with other qualifiers and other names of
    classes, a type that is its own desugared form, a desugared form for the record type, and one
    more statement. -/
def Builder.mirroredRecordCalls : List Builder.Call :=
  [.add (.stmt "CXXBoolLiteralExpr" []),
   .add (.type "FunctionProtoType" none
     { returnType := some ⟨6⟩
       params := [⟨4⟩, ⟨6⟩]
       spec := { exceptions := [⟨4⟩], noexceptExpr := some ⟨0⟩, sourceDecl := some ⟨2⟩ } }),
   .add (.decl "CXXConstructorDecl" [⟨1⟩]),
   .add (.type "EnumType" (some ⟨5⟩) { decl := some ⟨8⟩ }),
   .add (.qualType ⟨3⟩ { isVolatile := true }),
   .add (.type "PointerType" (some ⟨5⟩) { pointee := some ⟨4⟩ }),
   .add (.qualType ⟨5⟩ {}),
   .add (.decl "FieldDecl" [⟨6⟩]),
   .add (.decl "CXXRecordDecl" [⟨7⟩, ⟨2⟩]),
   .add (.stmt "NullStmt" [])]

/-- The arena of `Builder.mirroredRecordCalls`. -/
def Arena.mirroredRecord : Arena where
  nodes := #[
    .stmt ⟨0⟩ [],
    .type ⟨⟨1⟩, none, .functionProto ⟨6⟩ [⟨4⟩, ⟨6⟩] ⟨[⟨4⟩], some ⟨0⟩, some ⟨2⟩, none⟩⟩,
    .decl ⟨2⟩ [⟨1⟩],
    .type ⟨⟨3⟩, some ⟨5⟩, .tag ⟨8⟩⟩,
    .qualType ⟨3⟩ { isVolatile := true },
    .type ⟨⟨4⟩, some ⟨5⟩, .pointer ⟨4⟩⟩,
    .qualType ⟨5⟩ {},
    .decl ⟨5⟩ [⟨6⟩],
    .decl ⟨6⟩ [⟨7⟩, ⟨2⟩],
    .stmt ⟨7⟩ []]
  classes := (ClassNames.empty.internAll ["CXXBoolLiteralExpr", "FunctionProtoType",
    "CXXConstructorDecl", "EnumType", "PointerType", "FieldDecl", "CXXRecordDecl", "NullStmt"]).2

theorem Arena.finished_mirroredRecord : mirroredRecord.Finished :=
  ⟨Builder.mirroredRecordCalls, by decide, by decide +kernel⟩

/-- It is enough to look at all nodes of the first arena. -/
theorem Arena.Relocates.of_ids (hs : a.Sound) (hroots : ∀ n ∈ roots, a.contains n)
    (hinj : ∀ m ∈ a.ids, ∀ n ∈ a.ids, p m = p n → m = n)
    (hview : ∀ n ∈ a.ids, b.view? (p n) = (a.view? n).map (View.map p)) :
    a.Relocates b roots p := by
  have hmem : ∀ n, a.ReachedFrom roots n → n ∈ a.ids := by
    rintro n ⟨r, hr, hreach⟩
    apply mem_ids
    cases hreach with
    | refl => exact of_decide_eq_true (hroots n hr)
    | tail _ hstep => exact hs.index_lt_of_mem_followed hstep
  exact ⟨fun m n hm hn => hinj m (hmem m hm) n (hmem n hn), fun n hn => hview n (hmem n hn)⟩

/-- The linked record from both ends: in sequence the dumps are the same, and by position the ids are
    counted from the other end. Id and children of each record are listed. -/
theorem dumpRoots_relocate_mirroredRecord :
    let linked scheme := (dumpRoots Arena.linkedRecord [⟨6⟩, ⟨0⟩] MemorySink.empty
      { idScheme := scheme }).sink.records
    let mirrored scheme := (dumpRoots Arena.mirroredRecord [⟨2⟩, ⟨8⟩] MemorySink.empty
      { idScheme := scheme }).sink.records
    mirrored .sequential = linked .sequential ∧
    (mirrored .sequential).toList.map (fun r => (r.id, r.children)) =
      [(⟨7⟩, [⟨2⟩]), (⟨6⟩, [⟨7⟩, ⟨0⟩]), (⟨5⟩, []), (⟨4⟩, [⟨5⟩]), (⟨3⟩, [⟨4⟩]), (⟨2⟩, [⟨3⟩]),
        (⟨8⟩, []), (⟨1⟩, [⟨2⟩, ⟨4⟩, ⟨2⟩]), (⟨0⟩, [⟨1⟩])] ∧
    mirrored .nodeIndex = (linked .nodeIndex).map (Record.mapIds fun d => ⟨8 - d.raw⟩) ∧
    (mirrored .nodeIndex).toList.map (fun r => (r.id, r.children)) =
      [(⟨7⟩, [⟨6⟩]), (⟨8⟩, [⟨7⟩, ⟨2⟩]), (⟨3⟩, []), (⟨4⟩, [⟨3⟩]), (⟨5⟩, [⟨4⟩]), (⟨6⟩, [⟨5⟩]),
        (⟨0⟩, []), (⟨1⟩, [⟨6⟩, ⟨4⟩, ⟨6⟩]), (⟨2⟩, [⟨1⟩])] := by
  intro linked mirrored
  have h : Arena.linkedRecord.Relocates Arena.mirroredRecord [⟨6⟩, ⟨0⟩] (fun n => ⟨8 - n.raw⟩) :=
    Arena.Relocates.of_ids Arena.finished_linkedRecord.sound (by decide) (by decide)
      (by decide +kernel)
  obtain ⟨_, -, hsequential, -⟩ := dumpRoots_relocate Arena.finished_linkedRecord
    Arena.finished_mirroredRecord [⟨6⟩, ⟨0⟩] (by decide) {}
  obtain ⟨_, -, hindex, -⟩ := dumpRoots_relocate Arena.finished_linkedRecord
    Arena.finished_mirroredRecord [⟨6⟩, ⟨0⟩] (by decide) { idScheme := .nodeIndex }
  exact ⟨((hsequential _ h).1 rfl).2, by decide +kernel, ((hindex _ h).2 rfl).2, by decide +kernel⟩

end AstDump
