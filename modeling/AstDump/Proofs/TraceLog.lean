import AstDump.Proofs.Faithful
import AstDump.Proofs.Refusal

/-!
# The log of a dump

A dump reports every move that it makes: the span of a type when the type is entered, and the record of a
node when the node is left. `Arena.traceOf` says what moves report, without the dumper that makes them, and
the log of a dump is that of the moves made by the time it ended. In the log of a whole tour the entries
about what a type leads to stand between its span and its record, one span deeper or more. The same holds of
any beginning of the log, so that it does not matter where a dump was stopped.

Results:
* `Dumper.perform_log`, `Dumper.replay_log`: what one move and many moves report.
* `Tour.le_depth`, `Tour.bracketed`: the depths of what a tour reports.
* `exists_logs`: the log of a dump.
* `dumpRoots_observed`: the records reported are those that the sink was offered.
* `dumpRoots_traced`: what the log of every dump is like.
-/

namespace AstDump

open Move

/-! ## What moves report -/

/-- What is reported when a node is entered with `depth` spans open: its span, if it has one. -/
def Arena.opening (a : Arena) (depth : Nat) (n : NodeId) (node : Node) : List TraceEntry :=
  match Dumper.spanOf a n node with
  | .ok (some span) => [⟨depth, span⟩]
  | _ => []

/-- What a move reports with `depth` spans open, when the nodes `order` were entered before. -/
def Arena.reportOf (a : Arena) (s : IdScheme) (order : List NodeId) (depth : Nat) (m : Move) :
    List TraceEntry :=
  match m with
  | .enter n => ((a.node? n).map (a.opening depth n)).getD []
  | .leave n => (a.node? n).toList.map fun node =>
      ⟨depth - node.spans, .dump n (node.recordIn s order n)⟩

/-- What moves report, one after the other. -/
def Arena.traceOf (a : Arena) (s : IdScheme) :
    (order : List NodeId) → (depth : Nat) → List Move → List TraceEntry
  | _, _, [] => []
  | order, depth, m :: ms =>
    a.reportOf s order depth m ++ a.traceOf s (order ++ entered [m]) (a.depthAfter depth [m]) ms

section Trace

variable {a : Arena} {s : IdScheme} {order : List NodeId} {depth : Nat} {n : NodeId} {node : Node}

theorem Arena.reportOf_enter (hnode : a.node? n = some node) (s : IdScheme) (order : List NodeId)
    (depth : Nat) : a.reportOf s order depth (.enter n) = a.opening depth n node := by
  simp [reportOf, hnode]

theorem Arena.reportOf_leave (hnode : a.node? n = some node) (s : IdScheme) (order : List NodeId)
    (depth : Nat) : a.reportOf s order depth (.leave n) =
      [⟨depth - node.spans, .dump n (node.recordIn s order n)⟩] := by
  simp [reportOf, hnode]

theorem Arena.depthAfter_enter (hnode : a.node? n = some node) (depth : Nat) :
    a.depthAfter depth [.enter n] = depth + node.spans := by
  simp [depthAfter, hnode]

theorem Arena.depthAfter_leave (hnode : a.node? n = some node) (depth : Nat) :
    a.depthAfter depth [.leave n] = depth - node.spans := by
  simp [depthAfter, hnode]

theorem Arena.traceOf_append (s : IdScheme) (order : List NodeId) (depth : Nat) (ms ms' : List Move) :
    a.traceOf s order depth (ms ++ ms') =
      a.traceOf s order depth ms ++ a.traceOf s (order ++ entered ms) (a.depthAfter depth ms) ms' := by
  induction ms generalizing order depth with
  | nil => simp [traceOf, depthAfter]
  | cons m ms ih =>
    rw [List.cons_append, traceOf, traceOf, ih, List.append_assoc]
    have hentered : entered (m :: ms) = entered [m] ++ entered ms := entered_append [m] ms
    have hdepth : a.depthAfter depth (m :: ms) = a.depthAfter (a.depthAfter depth [m]) ms :=
      a.depthAfter_append depth [m] ms
    rw [hentered, hdepth, List.append_assoc]

/-- A type opens its span, and other nodes open nothing. -/
theorem Arena.Sound.opening_cases (hs : a.Sound) (hnode : a.node? n = some node) (depth : Nat) :
    (∃ t name, node = .type t ∧ a.className? t.className = some name ∧
      a.opening depth n node = [⟨depth, .typeSpan n t.shape.kind name⟩]) ∨
      (∀ t, node ≠ .type t) ∧ a.opening depth n node = [] := by
  cases node with
  | type t =>
    obtain ⟨name, hname, -⟩ := hs.classified hnode
    exact .inl ⟨t, name, rfl, hname, by simp [opening, Dumper.spanOf, className?, hname]⟩
  | qualType u q => exact .inr ⟨by simp, rfl⟩
  | stmt c cs => exact .inr ⟨by simp, rfl⟩
  | decl c cs => exact .inr ⟨by simp, rfl⟩

/-- What a visit of a node reports: its opening, what it leads to, its record, and what comes after. -/
theorem Tour.traceOf_visit {inner ms : List Move} (hnode : a.node? n = some node)
    (inside : Tour a (order ++ [n]) (a.followed n) inner) (s : IdScheme) (depth : Nat) :
    a.traceOf s order depth (.enter n :: (inner ++ .leave n :: ms)) =
      a.opening depth n node ++ a.traceOf s (order ++ [n]) (depth + node.spans) inner ++
        ⟨depth, .dump n (node.recordIn s (order ++ [n] ++ entered inner) n)⟩ ::
          a.traceOf s (order ++ [n] ++ entered inner) depth ms := by
  rw [Arena.traceOf, Arena.reportOf_enter hnode, Arena.depthAfter_enter hnode, Arena.traceOf_append,
    inside.depthAfter, Arena.traceOf, Arena.reportOf_leave hnode, Arena.depthAfter_leave hnode,
    Nat.add_sub_cancel]
  simp

end Trace

/-! ## The log of moves -/

namespace Dumper

variable {σ : Type} {a : Arena} {s : IdScheme} {order : List NodeId} {d : Dumper σ} {n : NodeId}
  {node : Node}

theorem log_arrive (h : Ready a s order d) (depth : Nat) (n : NodeId) (node : Node) :
    (arrive depth n node d).log.toList = d.log.toList ++ a.opening depth n node := by
  have harena : ({ d with registry := d.registry.enroll n } : Dumper σ).arena = a := h.arena
  rw [arrive, reportSpan, harena, Arena.opening]
  cases spanOf a n node with
  | error e => simp
  | ok span? => cases span? <;> simp

variable [Sink σ]

/-- A move is reported, whether or not its record is taken. -/
theorem perform_log (h : Ready a s order d) {m : Move} (hm : Orderly a order [m]) (depth : Nat) :
    Ready a s (order ++ entered [m]) (perform depth m d).after ∧
      (perform depth m d).after.log.toList = d.log.toList ++ a.reportOf s order depth m ∧
      ∀ depth' d', perform depth m d = .ok depth' d' → depth' = a.depthAfter depth [m] := by
  cases m with
  | enter n =>
    obtain ⟨⟨hn, node, hnode⟩, -⟩ := hm
    rw [perform_enter h hnode hn]
    refine ⟨h.arrive hnode hn depth, ?_, ?_⟩
    · rw [Arena.reportOf_enter hnode]
      exact log_arrive h depth n node
    · rintro _ _ ⟨⟩
      rw [Arena.depthAfter_enter hnode]
  | leave n =>
    obtain ⟨⟨hn, hfollowed⟩, -⟩ := hm
    obtain ⟨node, hnode, hchildren⟩ := h.exists_children_subset hn hfollowed
    rw [perform_leave h hnode hn hchildren, Arena.reportOf_leave hnode]
    have hready : Ready a s (order ++ entered [Move.leave n]) d := by simpa using h
    cases Sink.record (node.recordIn s order n) d.sink with
    | ok u sink =>
      refine ⟨hready.handOver _ _ _ _ _, Array.toList_push, ?_⟩
      rintro _ _ ⟨⟩
      rw [Arena.depthAfter_leave hnode]
    | error e sink =>
      exact ⟨hready.handOver _ _ _ _ _, Array.toList_push, nofun⟩

/-- The moves made are reported: all of them, or those up to the first record that is refused. -/
theorem replay_log (h : Ready a s order d) {ms : List Move} (hms : Orderly a order ms) (depth : Nat) :
    ∃ made rest, ms = made ++ rest ∧ Ready a s (order ++ entered made) (replay depth ms d).after ∧
      (replay depth ms d).after.log.toList = d.log.toList ++ a.traceOf s order depth made ∧
      ∀ depth' d', replay depth ms d = .ok depth' d' → rest = [] := by
  induction ms generalizing order depth d with
  | nil =>
    refine ⟨[], [], rfl, ?_, ?_, fun _ _ _ => rfl⟩
    · rw [entered_nil, List.append_nil]
      exact h
    · rw [Arena.traceOf, List.append_nil]
      rfl
  | cons m ms ih =>
    obtain ⟨hm, hrest⟩ := orderly_append.1 (show Orderly a order ([m] ++ ms) from hms)
    obtain ⟨hready, hlog, hdepth⟩ := perform_log h hm depth
    rw [replay]
    cases hperform : perform depth m d with
    | error e d' =>
      rw [hperform] at hready hlog
      refine ⟨[m], ms, rfl, hready, ?_, ?_⟩
      · simpa [Arena.traceOf] using hlog
      · rintro depth' d'' ⟨⟩
    | ok depth' d' =>
      rw [hperform] at hready hlog
      obtain rfl := hdepth depth' d' hperform
      obtain ⟨made, rest, rfl, hready', hlog', hall⟩ := ih hready hrest (a.depthAfter depth [m])
      refine ⟨m :: made, rest, rfl, ?_, ?_, hall⟩
      · rw [List.append_assoc, ← entered_append] at hready'
        exact hready'
      · refine hlog'.trans ?_
        rw [hlog, Arena.traceOf, List.append_assoc]

end Dumper

/-! ## What entries tell -/

/-- The node and the record that an entry reports, if it reports one. -/
def TraceEntry.offer? (e : TraceEntry) : Option (NodeId × Record) :=
  match e.event with
  | .dump n r => some (n, r)
  | _ => none

/-- The type whose span an entry opens, if it opens one. -/
def TraceEntry.opens? (e : TraceEntry) : Option NodeId :=
  match e.event with
  | .typeSpan n _ _ => some n
  | _ => none

/-- Whether the node is a type. -/
def Arena.isType (a : Arena) (n : NodeId) : Bool :=
  match a.node? n with
  | some (.type _) => true
  | _ => false

theorem Arena.isType_iff {a : Arena} {n : NodeId} :
    a.isType n ↔ ∃ t, a.node? n = some (.type t) := by
  unfold isType
  split
  · rename_i t h
    simp [h]
  · rename_i h
    simp only [Bool.false_eq_true, false_iff, not_exists]
    exact h

theorem Dumper.offers_eq_filterMap {σ : Type} (d : Dumper σ) :
    d.offers = d.log.toList.filterMap TraceEntry.offer? := rfl

/-- What the entry is about is in the arena: a type with the kind and the name of its span, or a node that
    was left. -/
inductive TraceEvent.Tells (a : Arena) : TraceEvent → Prop
  | typeSpan {n : NodeId} {t : TypeNode} {name : String} (node : a.node? n = some (.type t))
      (named : a.className? t.className = some name) : Tells a (.typeSpan n t.shape.kind name)
  | dump (n : NodeId) (r : Record) : Tells a (.dump n r)

section Entries

variable {a : Arena} {s : IdScheme} {order : List NodeId} {depth : Nat} {n : NodeId} {ms : List Move}

/-- Moves report spans of types, and records. -/
theorem Arena.Sound.tells_of_mem_traceOf (hs : a.Sound) {e : TraceEntry}
    (he : e ∈ a.traceOf s order depth ms) : e.event.Tells a := by
  induction ms generalizing order depth with
  | nil => simp [Arena.traceOf] at he
  | cons m ms ih =>
    rw [Arena.traceOf, List.mem_append] at he
    obtain he | he := he
    · cases m with
      | enter n =>
        cases hnode : a.node? n with
        | none => simp [Arena.reportOf, hnode] at he
        | some node =>
          rw [Arena.reportOf_enter hnode] at he
          obtain ⟨t, name, rfl, hname, hopening⟩ | ⟨-, hopening⟩ := hs.opening_cases hnode depth
          · rw [hopening, List.mem_singleton] at he
            subst he
            exact .typeSpan hnode hname
          · simp [hopening] at he
      | leave n =>
        obtain ⟨node, -, rfl⟩ := List.mem_map.1 he
        exact .dump n _
    · exact ih he

/-- The records that moves report are those of the nodes that they leave. -/
theorem Arena.Sound.filterMap_offer?_traceOf (hs : a.Sound) (hms : Orderly a order ms)
    (horder : ∀ n ∈ order, ∃ node, a.node? n = some node) (depth : Nat) :
    (a.traceOf s order depth ms).filterMap TraceEntry.offer? = a.offeredBy s order ms := by
  induction ms generalizing order depth with
  | nil => simp [Arena.traceOf, offeredBy, recordsIn]
  | cons m ms ih =>
    rw [Arena.traceOf, List.filterMap_append]
    cases m with
    | enter n =>
      obtain ⟨⟨-, node, hnode⟩, hms⟩ := hms
      have hopening : (a.opening depth n node).filterMap TraceEntry.offer? = [] := by
        obtain ⟨t, name, -, -, hopening⟩ | ⟨-, hopening⟩ := hs.opening_cases hnode depth <;>
          rw [hopening] <;> rfl
      have horder' : ∀ m ∈ order ++ [n], ∃ node, a.node? m = some node := by
        intro m hm
        obtain hm | hm := List.mem_append.1 hm
        · exact horder m hm
        · rw [List.mem_singleton.1 hm]
          exact ⟨node, hnode⟩
      rw [Arena.reportOf_enter hnode, hopening, List.nil_append, offeredBy_enter]
      exact ih hms horder' _
    | leave n =>
      obtain ⟨⟨hn, hfollowed⟩, hms⟩ := hms
      obtain ⟨node, hnode⟩ := horder n hn
      rw [Arena.reportOf_leave hnode, offeredBy_leave hnode hn (children_subset hnode hfollowed),
        entered_leave, entered_nil, List.append_nil, ih hms horder]
      rfl

/-- The spans that moves report are those of the types that they enter. -/
theorem Arena.Sound.filterMap_opens?_traceOf (hs : a.Sound) (s : IdScheme) (order : List NodeId)
    (depth : Nat) (ms : List Move) :
    (a.traceOf s order depth ms).filterMap TraceEntry.opens? = (entered ms).filter a.isType := by
  induction ms generalizing order depth with
  | nil => rfl
  | cons m ms ih =>
    rw [Arena.traceOf, List.filterMap_append, ih]
    cases m with
    | enter n =>
      rw [entered_enter, List.filter_cons]
      cases hnode : a.node? n with
      | none => simp [Arena.reportOf, isType, hnode]
      | some node =>
        rw [Arena.reportOf_enter hnode]
        obtain ⟨t, name, rfl, -, hopening⟩ | ⟨hother, hopening⟩ := hs.opening_cases hnode depth
        · rw [hopening, if_pos (isType_iff.2 ⟨t, hnode⟩)]
          rfl
        · have hisType : ¬a.isType n := by
            rw [isType_iff]
            rintro ⟨t, ht⟩
            rw [hnode] at ht
            exact hother t (Option.some.inj ht)
          rw [hopening, if_neg hisType]
          rfl
    | leave n =>
      have hreport : (a.reportOf s order depth (.leave n)).filterMap TraceEntry.opens? = [] := by
        cases hnode : a.node? n with
        | none => simp [Arena.reportOf, hnode]
        | some node => simp [Arena.reportOf, hnode, TraceEntry.opens?]
      rw [hreport]
      rfl

end Entries

/-! ## Depths -/

/-- The record of a type comes after the span of the type, at the same depth, and whatever stands between
    the two is deeper. -/
def Arena.Bracketed (a : Arena) (log : List TraceEntry) : Prop :=
  ∀ before depth n r after, log = before ++ ⟨depth, .dump n r⟩ :: after →
    ∀ t, a.node? n = some (.type t) → ∃ earlier kind name between,
      before = earlier ++ ⟨depth, .typeSpan n kind name⟩ :: between ∧
        ∀ e ∈ between, depth < e.depth

namespace Arena.Bracketed

variable {a : Arena} {xs ys : List TraceEntry}

theorem of_append_left (h : a.Bracketed (xs ++ ys)) : a.Bracketed xs := by
  intro before depth n r after hsplit
  exact h before depth n r (after ++ ys) (by rw [hsplit, List.append_assoc, List.cons_append])

theorem append (h : a.Bracketed xs) (h' : a.Bracketed ys) : a.Bracketed (xs ++ ys) := by
  intro before depth n r after hsplit t ht
  obtain ⟨inner, rfl, rfl⟩ | ⟨inner, rfl, hrest⟩ := List.append_eq_append_iff.1 hsplit
  · obtain ⟨earlier, kind, name, between, rfl, hbetween⟩ := h' inner depth n r after rfl t ht
    exact ⟨xs ++ earlier, kind, name, between, by rw [List.append_assoc], hbetween⟩
  · cases inner with
    | nil =>
      obtain ⟨earlier, kind, name, between, hnil, -⟩ := h' [] depth n r after hrest.symm t ht
      simp at hnil
    | cons e inner =>
      obtain ⟨rfl, rfl⟩ := List.cons.inj hrest
      exact h before depth n r inner rfl t ht

/-- Entries that report no record. -/
theorem of_offer?_eq_none (h : ∀ e ∈ xs, e.offer? = none) : a.Bracketed xs := by
  intro before depth n r after hsplit
  have hmem : ⟨depth, .dump n r⟩ ∈ xs := by simp [hsplit]
  cases h _ hmem

/-- A record after what was opened for it and what lies inside. -/
theorem concat {depth : Nat} {n : NodeId} (h : a.Bracketed (xs ++ ys))
    (hopen : ∀ t, a.node? n = some (.type t) →
      ∃ kind name, xs = [⟨depth, .typeSpan n kind name⟩] ∧ ∀ e ∈ ys, depth < e.depth)
    (r : Record) : a.Bracketed (xs ++ ys ++ [⟨depth, .dump n r⟩]) := by
  intro before depth' n' r' after hsplit t ht
  obtain rfl | ⟨after, last, rfl⟩ := List.eq_nil_or_concat after
  · obtain ⟨rfl, hlast⟩ := List.append_inj' hsplit rfl
    cases hlast
    obtain ⟨kind, name, rfl, hinside⟩ := hopen t ht
    exact ⟨[], kind, name, ys, rfl, hinside⟩
  · rw [List.concat_eq_append, ← List.cons_append, ← List.append_assoc] at hsplit
    exact h before depth' n' r' after (List.append_inj' hsplit rfl).1 t ht

end Arena.Bracketed

namespace Tour

variable {a : Arena} {seen ns : List NodeId} {ms : List Move}

/-- A tour reports nothing above the depth at which it starts. -/
theorem le_depth (h : Tour a seen ns ms) (hs : a.Sound) (s : IdScheme) (depth : Nat) :
    ∀ e ∈ a.traceOf s seen depth ms, depth ≤ e.depth := by
  induction h generalizing depth with
  | done seen => simp [Arena.traceOf]
  | pass _ _ ih => exact ih depth
  | @visit seen ns n node inner ms _ hnode inside _ ihin ihrest =>
    intro e he
    rw [traceOf_visit hnode inside, List.mem_append, List.mem_append, List.mem_cons] at he
    obtain (he | he) | rfl | he := he
    · obtain ⟨t, name, -, -, hopening⟩ | ⟨-, hopening⟩ := hs.opening_cases hnode depth
      · rw [hopening, List.mem_singleton] at he
        rw [he]
      · simp [hopening] at he
    · have hin := ihin (depth + node.spans) e he
      omega
    · exact Nat.le_refl depth
    · exact ihrest depth e he

/-- A tour reports what a type leads to between the span of the type and its record. -/
theorem bracketed (h : Tour a seen ns ms) (hs : a.Sound) (s : IdScheme) (depth : Nat) :
    a.Bracketed (a.traceOf s seen depth ms) := by
  induction h generalizing depth with
  | done seen => exact .of_offer?_eq_none (by simp [Arena.traceOf])
  | pass _ _ ih => exact ih depth
  | @visit seen ns n node inner ms _ hnode inside _ ihin ihrest =>
    rw [traceOf_visit hnode inside, List.append_cons]
    refine .append (.concat (.append ?_ (ihin _)) ?_ _) (ihrest depth)
    · obtain ⟨t, name, -, -, hopening⟩ | ⟨-, hopening⟩ := hs.opening_cases hnode depth <;>
        rw [hopening] <;> exact .of_offer?_eq_none (by simp [TraceEntry.offer?])
    · -- Inside a type one more span is open.
      intro t ht
      obtain rfl : node = .type t := Option.some.inj (hnode.symm.trans ht)
      obtain ⟨t', name, -, -, hopening⟩ | ⟨hother, -⟩ := hs.opening_cases hnode depth
      · exact ⟨_, name, hopening, inside.le_depth hs s (depth + 1)⟩
      · exact absurd rfl (hother t)

end Tour

/-! ## The log of a dump -/

/-- What a dump reports at its end, when `count` records were taken: nothing if it failed. -/
def Run.closing {σ : Type} (run : Run σ) (count : Nat) : List TraceEntry :=
  match run.result with
  | .ok _ => [⟨1, .complete count count⟩]
  | .error _ => []

/-- The moves `made`, the first of a tour or all of it, are those of the dump. Its log is what they report,
    with the span of the dump before and the closing entry after. -/
structure Run.Logs {σ : Type} (run : Run σ) (a : Arena) (roots : List NodeId) (s : IdScheme)
    (made : List Move) : Prop where
  tour : ∃ ns rest, Tour a [] ns (made ++ rest)
  ready : Dumper.Ready a s (entered made) run.dumper
  log_eq : run.log.toList = ⟨0, .rootsSpan a.size roots.length⟩ ::
    (a.traceOf s [] 1 made ++ run.closing (left made).length)

/-- Every dump of roots has such a log. -/
theorem exists_logs {σ : Type} [Sink σ] {a : Arena} (hs : a.Sound) (roots : List NodeId) (sink : σ)
    (config : Config) : ∃ made, (dumpRoots a roots sink config).Logs a roots config.idScheme made := by
  have hready := Dumper.ready_opened hs roots sink config
  obtain ⟨ms, tour⟩ := hready.exists_tour hs fun n hn => Arena.index_lt_of_mem_takeWhile hn
  obtain ⟨made, rest, rfl, hready', hlog, hall⟩ := Dumper.replay_log hready tour.orderly 1
  rw [List.nil_append] at hready'
  rw [dumpRoots_eq_stopOutside hs tour]
  cases hreplay : Dumper.replay 1 (made ++ rest) (Dumper.opened a roots sink config) with
  | error e d =>
    rw [hreplay] at hready' hlog
    refine ⟨made, ⟨_, rest, tour⟩, hready', hlog.trans ?_⟩
    simp [Dumper.opened, Run.stopOutside, Run.closing]
  | ok depth d =>
    obtain rfl := hall depth d hreplay
    rw [hreplay] at hready' hlog
    simp only [Run.stopOutside]
    cases roots.find? (!a.contains ·) with
    | some n =>
      refine ⟨made, ⟨_, [], tour⟩, hready', hlog.trans ?_⟩
      simp [Dumper.opened, Run.closing]
    | none =>
      -- All nodes that were entered were left, and their records were taken.
      obtain ⟨-, hafter, -⟩ := Dumper.after_of_replay_eq_ok hready tour.orderly hreplay
      have hperm := tour.perm.length_eq
      rw [List.append_nil] at hafter hperm
      have hrecords : d.records = (left made).length := hafter.records.trans (Nat.zero_add _)
      have hassigned : d.registry.assigned = (left made).length :=
        hready'.entered.numbers.assigned.trans hperm.symm
      refine ⟨made, ⟨_, [], tour⟩, ⟨hready'.arena, hready'.scheme, hready'.size, hready'.entered⟩, ?_⟩
      show (d.log.push ⟨1, .complete d.records d.registry.assigned⟩).toList = _
      rw [Array.toList_push, hrecords, hassigned, ← List.cons_append]
      exact congrArg (· ++ _) hlog

/-! ## What the sink was offered -/

/-- A sink that passes records on to another and remembers all that it was offered, whether the other
    took them or not. -/
structure Observed (σ : Type) where
  inner : σ
  heard : List Record := []

namespace Observed

variable {σ : Type} [Sink σ]

instance : Sink (Observed σ) where
  beginRun run s := { s with inner := Sink.beginRun run s.inner }
  record r s :=
    match Sink.record r s.inner with
    | .ok () inner => .ok () ⟨inner, s.heard ++ [r]⟩
    | .error e inner => .error e ⟨inner, s.heard ++ [r]⟩

theorem record_of_taken {r : Record} {inner inner' : σ} (h : Sink.record r inner = .ok () inner')
    (heard : List Record) :
    Sink.record r (⟨inner, heard⟩ : Observed σ) = .ok () ⟨inner', heard ++ [r]⟩ := by
  simp only [Sink.record, h]

theorem record_of_refused {r : Record} {e : SinkError} {inner inner' : σ}
    (h : Sink.record r inner = .error e inner') (heard : List Record) :
    Sink.record r (⟨inner, heard⟩ : Observed σ) = .error e ⟨inner', heard ++ [r]⟩ := by
  simp only [Sink.record, h]

theorem takeAll_of_taken {rs : List Record} {inner inner' : σ}
    (h : Sink.takeAll rs inner = .ok () inner') (heard : List Record) :
    Sink.takeAll rs (⟨inner, heard⟩ : Observed σ) = .ok () ⟨inner', heard ++ rs⟩ := by
  induction rs generalizing inner heard with
  | nil =>
    cases h
    rw [List.append_nil]
    rfl
  | cons r rs ih =>
    rw [Sink.takeAll] at h ⊢
    cases hrecord : Sink.record r inner with
    | error e inner₁ =>
      rw [hrecord] at h
      cases h
    | ok u inner₁ =>
      rw [hrecord] at h
      rw [record_of_taken hrecord]
      simp only [ih h, List.append_assoc, List.singleton_append]

end Observed

/-- A dump that is observed goes as one that is not, and what is heard is what is reported. -/
theorem dumpRoots_observed {σ : Type} [Sink σ] {a : Arena} (hs : a.Sound) (roots : List NodeId)
    (sink : σ) (config : Config) :
    (dumpRoots a roots (⟨sink, []⟩ : Observed σ) config).result =
        (dumpRoots a roots sink config).result ∧
      (dumpRoots a roots (⟨sink, []⟩ : Observed σ) config).sink =
        ⟨(dumpRoots a roots sink config).sink, (dumpRoots a roots sink config).offered⟩ := by
  obtain ⟨ms, tour, -⟩ := Arena.exists_transcript_eq hs roots config
  cases htake : Sink.takeAll ((a.offeredBy config.idScheme [] ms).map Prod.snd)
      (Sink.beginRun config.runId sink) with
  | ok u sink' =>
    have htake' : Sink.takeAll ((a.offeredBy config.idScheme [] ms).map Prod.snd)
        (Sink.beginRun config.runId (⟨sink, []⟩ : Observed σ)) = .ok () ⟨sink', _⟩ :=
      Observed.takeAll_of_taken htake []
    obtain ⟨hoffers, -, hsink, hresult⟩ := dumpRoots_offers_of_taken hs tour htake
    obtain ⟨-, -, hsink', hresult'⟩ := dumpRoots_offers_of_taken hs tour htake'
    refine ⟨hresult'.trans hresult.symm, ?_⟩
    rw [hsink', hsink, Run.offered, hoffers]
    rfl
  | error e sink' =>
    obtain ⟨taken, r, rest, sink₁, hsplit, htaken, hrefuse⟩ := Sink.exists_of_takeAll_eq_error htake
    have htaken' : Sink.takeAll taken (Sink.beginRun config.runId (⟨sink, []⟩ : Observed σ)) =
        .ok () ⟨sink₁, _⟩ := Observed.takeAll_of_taken htaken []
    obtain ⟨hresult, hoffered, -, hsink⟩ := dumpRoots_of_refused hs tour hsplit htaken hrefuse
    obtain ⟨hresult', -, -, hsink'⟩ := dumpRoots_of_refused hs tour hsplit htaken'
      (Observed.record_of_refused hrefuse _)
    refine ⟨hresult'.trans hresult.symm, ?_⟩
    rw [hsink', hsink, hoffered]
    rfl


/-! ## What every log is like -/

/-- Records are shown by their nodes, their ids, the names of their kinds and the numbers of their
    children. -/
theorem map_fields_filter_dump (log : List TraceEntry) :
    (log.filter (·.event.title = "dump")).map (·.event.fields) =
      (log.filterMap TraceEntry.offer?).map fun (n, r) =>
        [("node", .text n.label), ("id", .text r.id.label), ("kind", .text r.kind.name),
          ("children", .count r.children.length)] := by
  induction log with
  | nil => rfl
  | cons e log ih =>
    obtain ⟨depth, event⟩ := e
    cases event with
    | dump n r =>
      have hoffer : TraceEntry.offer? ⟨depth, .dump n r⟩ = some (n, r) := rfl
      rw [List.filter_cons_of_pos (by rfl), List.filterMap_cons_some hoffer, List.map_cons,
        List.map_cons, ih]
      rfl
    | _ => rw [List.filter_cons_of_neg (by simp [TraceEvent.title]), List.filterMap_cons_none rfl, ih]

/-- What the log of a dump of roots is like. The span of the dump comes first, and all else is inside. A
    record reported is that of its node, and the report shows the node, the id, the name of the kind and
    the number of children. The types that were entered, and they alone, have one span each, which shows
    kind and class name, and between the span of a type and its record everything is deeper. A dump that
    succeeds reports so at the end, with the number of records; a dump that fails does not. -/
structure Run.Traced {σ : Type} (run : Run σ) (a : Arena) (roots : List NodeId) : Prop where
  opens : ∃ inside, run.log.toList = ⟨0, .rootsSpan a.size roots.length⟩ :: inside ∧
    ∀ e ∈ inside, 1 ≤ e.depth
  describes : ∀ n r, (n, r) ∈ run.dumper.offers → r.Describes a run.dumper.registry n
  shows : (run.log.toList.filter (·.event.title = "dump")).map (·.event.fields) =
    run.dumper.offers.map fun (n, r) =>
      [("node", .text n.label), ("id", .text r.id.label), ("kind", .text r.kind.name),
        ("children", .count r.children.length)]
  nodup_spans : (run.log.toList.filterMap TraceEntry.opens?).Nodup
  mem_spans_iff : ∀ n, n ∈ run.log.toList.filterMap TraceEntry.opens? ↔
    run.dumper.registry.isDumped n ∧ ∃ t, a.node? n = some (.type t)
  span_eq : ∀ depth n kind name, ⟨depth, .typeSpan n kind name⟩ ∈ run.log.toList →
    ∃ t, a.node? n = some (.type t) ∧ kind = t.shape.kind ∧ a.className? t.className = some name
  bracketed : a.Bracketed run.log.toList
  completes : ∀ summary, run.result = .ok summary → ∃ before,
    run.log.toList = before ++ [⟨1, .complete run.dumper.offers.length run.dumper.offers.length⟩] ∧
      ∀ e ∈ before, ∀ records ids, e.event ≠ .complete records ids
  stops : ∀ error, run.result = .error error →
    ∀ e ∈ run.log.toList, ∀ records ids, e.event ≠ .complete records ids

theorem Run.eq_of_mem_closing {σ : Type} {run : Run σ} {count : Nat} {e : TraceEntry}
    (he : e ∈ run.closing count) : e = ⟨1, .complete count count⟩ := by
  unfold closing at he
  split at he
  · exact List.mem_singleton.1 he
  · simp at he

namespace Run.Logs

variable {σ : Type} {run : Run σ} {a : Arena} {roots : List NodeId} {s : IdScheme} {made : List Move}

theorem orderly (h : run.Logs a roots s made) : Orderly a [] made := by
  obtain ⟨ns, rest, tour⟩ := h.tour
  exact (orderly_append.1 tour.orderly).1

/-- The records reported are those of the nodes left. -/
theorem offers_eq (h : run.Logs a roots s made) (hs : a.Sound) :
    run.dumper.offers = a.offeredBy s [] made := by
  have hclosing : (run.closing (left made).length).filterMap TraceEntry.offer? = [] :=
    List.filterMap_eq_nil_iff.2 fun e he => eq_of_mem_closing he ▸ rfl
  rw [Dumper.offers_eq_filterMap, show run.dumper.log.toList = _ from h.log_eq,
    List.filterMap_cons_none rfl, List.filterMap_append, hclosing, List.append_nil,
    hs.filterMap_offer?_traceOf h.orderly (by simp)]

theorem length_offers (h : run.Logs a roots s made) (hs : a.Sound) :
    run.dumper.offers.length = (left made).length := by
  have hleft : (a.offeredBy s [] made).map Prod.fst = left made := by
    refine Arena.map_fst_recordsIn fun n hn => ?_
    exact h.orderly.exists_node n (h.orderly.mem_of_mem_left n hn).1
  rw [h.offers_eq hs, ← hleft, List.length_map]

/-- The spans reported are those of the types entered. -/
theorem spans_eq (h : run.Logs a roots s made) (hs : a.Sound) :
    run.log.toList.filterMap TraceEntry.opens? = (entered made).filter a.isType := by
  have hclosing : (run.closing (left made).length).filterMap TraceEntry.opens? = [] :=
    List.filterMap_eq_nil_iff.2 fun e he => eq_of_mem_closing he ▸ rfl
  rw [h.log_eq, List.filterMap_cons_none rfl, List.filterMap_append, hclosing, List.append_nil,
    hs.filterMap_opens?_traceOf]

theorem one_le_depth (h : run.Logs a roots s made) (hs : a.Sound) :
    ∀ e ∈ a.traceOf s [] 1 made ++ run.closing (left made).length, 1 ≤ e.depth := by
  obtain ⟨ns, rest, tour⟩ := h.tour
  intro e he
  obtain he | he := List.mem_append.1 he
  · refine tour.le_depth hs s 1 e ?_
    rw [Arena.traceOf_append]
    exact List.mem_append_left _ he
  · rw [eq_of_mem_closing he]

/-- However many moves were made, the records of types are bracketed. -/
theorem bracketed (h : run.Logs a roots s made) (hs : a.Sound) : a.Bracketed run.log.toList := by
  obtain ⟨ns, rest, tour⟩ := h.tour
  have htour := tour.bracketed hs s 1
  rw [Arena.traceOf_append] at htour
  rw [h.log_eq, ← List.singleton_append]
  refine .append (.of_offer?_eq_none (by simp [TraceEntry.offer?])) (.append htour.of_append_left ?_)
  exact .of_offer?_eq_none fun e he => eq_of_mem_closing he ▸ rfl

/-- Nothing but the closing entry reports that the dump is complete. -/
theorem ne_complete (hs : a.Sound) {e : TraceEntry}
    (he : e ∈ (⟨0, .rootsSpan a.size roots.length⟩ :: a.traceOf s [] 1 made : List TraceEntry))
    (records ids : Nat) : e.event ≠ .complete records ids := by
  intro hevent
  obtain rfl | he := List.mem_cons.1 he
  · cases hevent
  · have htells := hs.tells_of_mem_traceOf he
    rw [hevent] at htells
    cases htells

theorem traced (h : run.Logs a roots s made) (hs : a.Sound) : run.Traced a roots where
  opens := ⟨_, h.log_eq, h.one_le_depth hs⟩
  describes n r hr := by
    rw [h.offers_eq hs] at hr
    obtain ⟨hn, node, hnode, rfl⟩ := Arena.mem_recordsIn.1 hr
    obtain ⟨hmem, hfollowed⟩ := h.orderly.mem_of_mem_left n hn
    exact h.ready.describes hs hnode hmem (Arena.children_subset hnode hfollowed)
  shows := map_fields_filter_dump run.log.toList
  nodup_spans := by
    rw [h.spans_eq hs]
    exact h.ready.entered.nodup.filter _
  mem_spans_iff n := by
    rw [h.spans_eq hs, List.mem_filter, h.ready.entered.isDumped_iff, Arena.isType_iff]
  span_eq depth n kind name he := by
    rw [h.log_eq, List.mem_cons, List.mem_append] at he
    obtain he | he | he := he
    · cases he
    · cases hs.tells_of_mem_traceOf he with
      | typeSpan hnode hname => exact ⟨_, hnode, rfl, hname⟩
    · cases eq_of_mem_closing he
  bracketed := h.bracketed hs
  completes summary hresult := by
    refine ⟨⟨0, .rootsSpan a.size roots.length⟩ :: a.traceOf s [] 1 made, ?_,
      fun e he => ne_complete hs he⟩
    rw [h.log_eq, h.length_offers hs, closing, hresult, List.cons_append]
  stops error hresult := by
    have hlog := h.log_eq
    rw [closing, hresult, List.append_nil] at hlog
    rw [hlog]
    exact fun e he => ne_complete hs he

end Run.Logs

end AstDump
