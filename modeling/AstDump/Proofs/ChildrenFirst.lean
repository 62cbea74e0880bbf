import AstDump.Proofs.Complete
import AstDump.Proofs.Safety

/-!
# Children come first, except around a cycle

A record is handed over after the records of all nodes that its node leads to, children or not. The
exceptions are nodes that were still in progress: each of them leads back to the node, and was entered
no later than the node. Without cycles there are no exceptions.

Results:
* `InProgress.enter`, `InProgress.leave`: the nodes in progress around a visit.
* `Tour.childrenFirst`: nodes left by a tour, past nodes that were left or are in progress.
* `Dumper.Answers.exists_complete`: what calls that were all answered leave.
* `Dumper.mem_before_of_answers`: the records of such calls.
-/

namespace AstDump

open Move

/-! ## The order of leaving -/

/-- Each node of `out` comes after all that it leads to, except for nodes that lead back to it and come
    no later than it in `order`. -/
def ChildrenFirst (a : Arena) (order out : List NodeId) : Prop :=
  ∀ before u after, out = before ++ u :: after → ∀ v ∈ a.followed u,
    v ∈ before ∨ (a.Reaches v u ∧ order.idxOf v ≤ order.idxOf u)

variable {a : Arena} {seen order out ns : List NodeId} {n : NodeId} {ms : List Move}

theorem childrenFirst_nil (a : Arena) (order : List NodeId) : ChildrenFirst a order [] := by
  intro before u after h
  simp at h

theorem ChildrenFirst.concat (h : ChildrenFirst a order out)
    (hn : ∀ v ∈ a.followed n, v ∈ out ∨ (a.Reaches v n ∧ order.idxOf v ≤ order.idxOf n)) :
    ChildrenFirst a order (out ++ [n]) := by
  intro before u after heq
  obtain rfl | ⟨after, last, rfl⟩ := List.eq_nil_or_concat' after
  · obtain ⟨rfl, heq⟩ := List.append_inj' heq rfl
    obtain rfl : n = u := by simpa using heq
    exact hn
  · rw [← List.cons_append, ← List.append_assoc] at heq
    exact h before u after (List.append_inj_left' heq rfl)

/-- Nodes that are entered later change nothing. -/
theorem ChildrenFirst.append (h : ChildrenFirst a order out) (hsub : out ⊆ order)
    (more : List NodeId) : ChildrenFirst a (order ++ more) out := by
  intro before u after heq v hv
  have hu : u ∈ order := hsub (by simp [heq])
  refine (h before u after heq v hv).imp_right fun ⟨hreach, hle⟩ => ⟨hreach, ?_⟩
  have hv : v ∈ order := by
    have hlt := List.idxOf_lt_length_of_mem hu
    exact List.idxOf_lt_length_iff.1 (by omega)
  rwa [List.idxOf_append_of_mem hv, List.idxOf_append_of_mem hu]

/-- Of the nodes `seen`, the nodes `out` were left. The others are in progress: they lead to all nodes
    `ns` that are still to visit. -/
structure InProgress (a : Arena) (seen out ns : List NodeId) : Prop where
  sub : out ⊆ seen
  reaches : ∀ x ∈ seen, x ∈ out ∨ ∀ n ∈ ns, a.Reaches x n

namespace InProgress

theorem tail (h : InProgress a seen out (n :: ns)) : InProgress a seen out ns where
  sub := h.sub
  reaches x hx := (h.reaches x hx).imp_right fun hreach m hm => hreach m (List.mem_cons_of_mem _ hm)

/-- What is in progress leads to `n`, and `n` leads to what is visited next. -/
theorem enter (h : InProgress a seen out (n :: ns)) :
    InProgress a (seen ++ [n]) out (a.followed n) where
  sub := List.subset_append_of_subset_left _ h.sub
  reaches x hx := by
    obtain hx | hx := List.mem_append.1 hx
    · exact (h.reaches x hx).imp_right fun hreach m hm => (hreach n List.mem_cons_self).tail hm
    · rw [List.mem_singleton.1 hx]
      exact .inr fun m hm => Relation.ReflTransGen.single hm

/-- After `n`, what was entered inside was left. -/
theorem leave (h : InProgress a seen out (n :: ns))
    (inside : Tour a (seen ++ [n]) (a.followed n) ms) :
    InProgress a (seen ++ [n] ++ entered ms) (out ++ left ms ++ [n]) ns where
  sub x hx := by
    simp only [List.mem_append, List.mem_singleton] at hx ⊢
    obtain (hx | hx) | rfl := hx
    · exact .inl (.inl (h.sub hx))
    · exact .inr (inside.perm.mem_iff.1 hx)
    · exact .inl (.inr rfl)
  reaches x hx := by
    obtain hx | hx := List.mem_append.1 hx
    · obtain hx | hx := List.mem_append.1 hx
      · exact (h.tail.reaches x hx).imp_left fun hx => by simp [hx]
      · exact .inl (List.mem_append_right _ hx)
    · exact .inl (List.mem_append_left _ (List.mem_append_right _ (inside.perm.mem_iff.2 hx)))

/-- What `n` leads to was left when `n` is left, or is in progress. -/
theorem left_or_reaches (h : InProgress a seen out (n :: ns)) (hn : n ∉ seen)
    (inside : Tour a (seen ++ [n]) (a.followed n) ms) {v : NodeId} (hv : v ∈ a.followed n) :
    v ∈ out ++ left ms ∨ (a.Reaches v n ∧
      (seen ++ [n] ++ entered ms).idxOf v ≤ (seen ++ [n] ++ entered ms).idxOf n) := by
  obtain hv | hv := List.mem_append.1 (inside.subset hv)
  · obtain hv | hv := List.mem_append.1 hv
    · refine (h.reaches v hv).imp (List.mem_append_left _) fun hreach => ?_
      refine ⟨hreach n List.mem_cons_self, ?_⟩
      have hlt := List.idxOf_lt_length_of_mem hv
      rw [List.append_assoc, List.idxOf_append_of_mem hv, List.idxOf_append_of_notMem hn]
      omega
    · rw [List.mem_singleton.1 hv]
      exact .inr ⟨Relation.ReflTransGen.refl, Nat.le_refl _⟩
  · exact .inl (List.mem_append_right _ (inside.perm.mem_iff.2 hv))

end InProgress

/-- A tour keeps the order of leaving, past nodes that were left or are in progress. -/
theorem Tour.childrenFirst (h : Tour a seen ns ms) (hprogress : InProgress a seen out ns)
    (hfirst : ChildrenFirst a seen out) :
    ChildrenFirst a (seen ++ entered ms) (out ++ left ms) := by
  induction h generalizing out with
  | done seen => simpa using hfirst
  | pass _ _ ih => exact ih hprogress.tail hfirst
  | @visit seen ns n node inner ms hn hnode inside _ ihin ihrest =>
    have hin := ihin hprogress.enter (hfirst.append hprogress.sub _)
    have hout : ChildrenFirst a (seen ++ [n] ++ entered inner) (out ++ left inner ++ [n]) :=
      hin.concat fun v hv => hprogress.left_or_reaches hn inside hv
    have hrest := ihrest (hprogress.leave inside) hout
    simpa using hrest

/-! ## Arenas without cycles -/

/-- Some node that `n` leads to leads back to `n`. -/
def Arena.OnCycle (a : Arena) (n : NodeId) : Prop := ∃ m ∈ a.followed n, a.Reaches m n

/-- An arena in which nodes lead to earlier nodes only has no cycles. -/
theorem Arena.not_onCycle (h : ∀ n ∈ a.ids, ∀ m ∈ a.followed n, m.index < n.index) (n : NodeId) :
    ¬a.OnCycle n := by
  have hlt : ∀ {n m}, m ∈ a.followed n → m.index < n.index := by
    intro n m hm
    refine h n ?_ m hm
    unfold followed at hm
    split at hm
    · simp at hm
    · rename_i node hnode
      exact mem_ids (index_lt_of_node? hnode)
  have hle : ∀ {m n}, a.Reaches m n → n.index ≤ m.index := by
    intro m n hreach
    induction hreach with
    | refl => exact Nat.le_refl _
    | tail _ hstep ih =>
      have := hlt hstep
      omega
  rintro ⟨m, hm, hreach⟩
  have := hlt hm
  have := hle hreach
  omega

/-- Calls that describe a pointer to a constant, from its end on. -/
def Builder.pointerCalls : List Builder.Call :=
  [.add (.type "BuiltinType" none {}),
   .add (.qualType ⟨0⟩ { isConst := true }),
   .add (.type "PointerType" (some ⟨2⟩) { pointee := some ⟨1⟩ }),
   .add (.qualType ⟨2⟩ {})]

/-- The arena of `Builder.pointerCalls`. -/
def Arena.pointer : Arena where
  nodes := #[
    .type ⟨⟨0⟩, none, .generic⟩,
    .qualType ⟨0⟩ { isConst := true },
    .type ⟨⟨1⟩, some ⟨2⟩, .pointer ⟨1⟩⟩,
    .qualType ⟨2⟩ {}]
  classes := (ClassNames.empty.internAll ["BuiltinType", "PointerType"]).2

/-! ## Calls that were answered -/

namespace Dumper

variable {σ : Type} [Sink σ] {s : IdScheme} {sink₀ : σ} {d d' : Dumper σ}

/-- The calls were all answered, and led from the dumper `d` to `d'`. -/
def Answers : Dumper σ → List Call → Dumper σ → Prop
  | d, [], d' => d' = d
  | d, c :: calls, d' => ∃ id d₁, d.call c = .ok id d₁ ∧ Answers d₁ calls d'

/-- A call that was answered made all moves of a tour. -/
theorem Complete.of_call_eq_ok (h : Complete a s sink₀ order out d) (hs : a.Sound) {c : Call}
    {id : DumpId} (hcall : d.call c = .ok id d') :
    ∃ ms, Tour a order [c.node] ms ∧
      Complete a s sink₀ (order ++ entered ms) (out ++ left ms) d' := by
  have hends := (ends_visitAt hs h.ready c (Nat.lt_succ_self a.size)).1
  rw [← h.ready.call_eq, hcall] at hends
  cases hends with
  | answered _ _ hc _ =>
    obtain ⟨ms, tour, heq⟩ := exists_call_eq_replay hs h.ready hc
    rw [h.ready.call_eq, heq _ (Nat.lt_succ_self _)] at hcall
    cases hreplay : Dumper.replay 0 ms d with
    | error e d₁ =>
      rw [hreplay] at hcall
      cases hcall
    | ok depth d₁ =>
      rw [hreplay] at hcall
      cases hcall
      obtain ⟨-, hafter, htake⟩ := after_of_replay_eq_ok h.ready tour.orderly hreplay
      exact ⟨ms, tour, h.after tour hafter htake⟩

/-- Calls that were answered keep the order of leaving, and enter what can be reached. -/
theorem Answers.exists_complete {calls : List Call} (hcalls : Answers d calls d') (hs : a.Sound)
    (h : Complete a s sink₀ order out d) (hfirst : ChildrenFirst a order out) :
    ∃ order' out', Complete a s sink₀ order' out' d' ∧ ChildrenFirst a order' out' ∧
      ∀ n, n ∈ order' ↔ n ∈ order ∨ a.ReachedFrom (calls.map (·.node)) n := by
  induction calls generalizing order out d with
  | nil =>
    obtain rfl : d' = d := hcalls
    refine ⟨order, out, h, hfirst, fun n => ?_⟩
    simp [Arena.ReachedFrom]
  | cons c calls ih =>
    obtain ⟨id, d₁, hcall, hcalls⟩ := hcalls
    obtain ⟨ms, tour, h₁⟩ := h.of_call_eq_ok hs hcall
    have hprogress : InProgress a order out [c.node] :=
      ⟨fun x hx => h.perm.mem_iff.1 hx, fun x hx => .inl (h.perm.mem_iff.2 hx)⟩
    have hfirst₁ := tour.childrenFirst hprogress hfirst
    obtain ⟨order', out', hcomplete, hfirst', hmem⟩ := ih hcalls h₁ hfirst₁
    refine ⟨order', out', hcomplete, hfirst', fun n => ?_⟩
    rw [hmem, tour.mem_iff h.closed, or_assoc, ← Arena.reachedFrom_append]
    rfl

/-- A list of records in two parts is a list of nodes in two parts. -/
theorem Complete.out_eq (h : Complete a s sink₀ order out d) {before after : List (NodeId × Record)}
    {u : NodeId} {r : Record} (heq : d.offers = before ++ (u, r) :: after) :
    out = before.map Prod.fst ++ u :: after.map Prod.fst := by
  rw [← h.map_fst_offers, heq, List.map_append, List.map_cons]

theorem Complete.sequential_le (h : Complete a .sequential sink₀ order out d) (hs : a.Sound)
    {u v : NodeId} (hu : u ∈ order) (hv : v ∈ order) (hle : order.idxOf v ≤ order.idxOf u) :
    ∃ i j, d.registry.get? v = some i ∧ d.registry.get? u = some j ∧ i.raw ≤ j.raw := by
  have hlen := hs.length_le h.ready.entered.nodup h.ready.exists_node
  refine ⟨_, _, h.ready.get?_eq.trans (if_pos hv), h.ready.get?_eq.trans (if_pos hu), ?_⟩
  rwa [UInt32.le_iff_toNat_le, IdScheme.toNat_idIn hlen hv, IdScheme.toNat_idIn hlen hu]

/-- **Main result.** After calls to a new dumper that were all answered, the records are those that the
    sink took, in order. Whatever the node `u` of a record leads to, child or not, has its record
    before, or leads back to `u` and, numbered in sequence, has no greater id than `u`. If no cycle can
    be reached from the nodes of the calls, it has its record before. -/
theorem mem_before_of_answers (ha : a.Finished) (sink : σ) (config : Config) (calls : List Call)
    (hcalls : (new a sink config).Answers calls d) :
    Sink.takeAll (d.offers.map Prod.snd) (Sink.beginRun config.runId sink) = .ok () d.sink ∧
      (d.offers.map Prod.fst).Nodup ∧
      ∀ before u r after, d.offers = before ++ (u, r) :: after → ∀ v ∈ a.followed u,
        (v ∈ before.map Prod.fst ∨
          v ∈ u :: after.map Prod.fst ∧ a.Reaches v u ∧
            (config.idScheme = .sequential →
              ∃ i j, d.registry.get? v = some i ∧ d.registry.get? u = some j ∧ i.raw ≤ j.raw)) ∧
        ((∀ n, a.ReachedFrom (calls.map (·.node)) n → ¬a.OnCycle n) →
          v ∈ before.map Prod.fst) := by
  have hs := ha.sound
  obtain ⟨order, out, h, hfirst, hmem⟩ :=
    hcalls.exists_complete hs (complete_new hs sink config) (childrenFirst_nil a [])
  refine ⟨h.taken, ?_, ?_⟩
  · rw [h.map_fst_offers]
    exact h.perm.nodup_iff.2 h.ready.entered.nodup
  · intro before u r after heq v hv
    have hout := h.out_eq heq
    have hu : u ∈ order := h.perm.mem_iff.1 (by simp [hout])
    have hv' : v ∈ order := h.closed u hu hv
    have hcases := hfirst _ _ _ hout v hv
    refine ⟨?_, fun hacyclic => ?_⟩
    · by_cases hbefore : v ∈ before.map Prod.fst
      · exact .inl hbefore
      · obtain hbefore' | ⟨hreach, hle⟩ := hcases
        · exact absurd hbefore' hbefore
        · refine .inr ⟨?_, hreach, fun hscheme => ?_⟩
          · have hvout := h.perm.mem_iff.2 hv'
            rw [hout] at hvout
            exact (List.mem_append.1 hvout).resolve_left hbefore
          · rw [hscheme] at h
            exact h.sequential_le hs hu hv' hle
    · refine hcases.resolve_right fun ⟨hreach, _⟩ => ?_
      have hreached : a.ReachedFrom (calls.map (·.node)) u := by simpa using (hmem u).1 hu
      exact hacyclic u hreached ⟨v, hv, hreach⟩

/-- A dumper over an arena with room for many records, after calls. -/
def roomy (a : Arena) (calls : List Call) : Dumper QuotaSink :=
  (new a { left := 20 } {}).afterCalls calls

/-- A visit of a method hands over first the record of a field, whose type is in progress. A visit of a
    pointer, which has no cycle, hands over the record of the wrapper after that of the pointer. -/
theorem mem_before_of_answers_linkedRecord :
    (∃ r after, (roomy Arena.linkedRecord [⟨some .decl, ⟨6⟩⟩, ⟨none, ⟨0⟩⟩]).offers =
        (⟨1⟩, r) :: after ∧
      Arena.linkedRecord.Reaches ⟨2⟩ ⟨1⟩ ∧
      ∃ i j, (roomy Arena.linkedRecord [⟨some .decl, ⟨6⟩⟩, ⟨none, ⟨0⟩⟩]).registry.get? ⟨2⟩ = some i ∧
        (roomy Arena.linkedRecord [⟨some .decl, ⟨6⟩⟩, ⟨none, ⟨0⟩⟩]).registry.get? ⟨1⟩ = some j ∧
        i.raw ≤ j.raw) ∧
    ∃ before r, (roomy Arena.pointer [⟨some .type, ⟨3⟩⟩]).offers = before ++ [(⟨3⟩, r)] ∧
      (⟨2⟩ : NodeId) ∈ before.map Prod.fst := by
  constructor
  · have hcalls : (new Arena.linkedRecord ({ left := 20 } : QuotaSink) {}).Answers
        [⟨some .decl, ⟨6⟩⟩, ⟨none, ⟨0⟩⟩]
        (roomy Arena.linkedRecord [⟨some .decl, ⟨6⟩⟩, ⟨none, ⟨0⟩⟩]) := ⟨_, _, rfl, _, _, rfl, rfl⟩
    have hoffers : ∃ r after, (roomy Arena.linkedRecord [⟨some .decl, ⟨6⟩⟩, ⟨none, ⟨0⟩⟩]).offers =
        (⟨1⟩, r) :: after := ⟨_, _, rfl⟩
    obtain ⟨r, after, hoffers⟩ := hoffers
    obtain ⟨-, -, hbefore⟩ :=
      mem_before_of_answers Arena.finished_linkedRecord _ _ _ hcalls
    obtain ⟨hmem | ⟨-, hreach, hle⟩, -⟩ := hbefore [] ⟨1⟩ r after hoffers ⟨2⟩ (by decide)
    · cases hmem
    · exact ⟨r, after, hoffers, hreach, hle rfl⟩
  · have hfinished : Arena.pointer.Finished := ⟨Builder.pointerCalls, by decide, by decide +kernel⟩
    have hcalls : (new Arena.pointer ({ left := 20 } : QuotaSink) {}).Answers [⟨some .type, ⟨3⟩⟩]
        (roomy Arena.pointer [⟨some .type, ⟨3⟩⟩]) := ⟨_, _, rfl, rfl⟩
    have hoffers : ∃ before r, (roomy Arena.pointer [⟨some .type, ⟨3⟩⟩]).offers =
        before ++ [(⟨3⟩, r)] := ⟨[_, _, _], _, rfl⟩
    obtain ⟨before, r, hoffers⟩ := hoffers
    obtain ⟨-, -, hbefore⟩ := mem_before_of_answers hfinished _ _ _ hcalls
    exact ⟨before, r, hoffers, (hbefore before ⟨3⟩ r [] hoffers ⟨2⟩ (by decide)).2 fun n _ =>
      Arena.not_onCycle (by decide +kernel) n⟩

end Dumper

end AstDump
