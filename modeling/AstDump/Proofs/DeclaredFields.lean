import AstDump.Dump
import AstDump.Proofs.FirstFault
import AstDump.Proofs.WriteOnce
import Mathlib.Data.List.Find
import Mathlib.Data.List.Forall2

/-!
# Fields that a kind declares

A front end may fill in any field of a type. The kind of the type's class declares some of them, and
asks for some of those. Which fields these are is said here by two tables, without the case analysis by
which `TypeFields.shape` makes a shape. All other fields have no influence, whatever ids they hold: two
sequences of calls that differ only there give the same answers, the same arena or fault, and the same
dumps.

Results:
* `TypeFields.shape_eq_error_iff`: a type is refused for the first field that is asked for and missing.
* `TypeFields.shape_eq_ok_iff`: otherwise it gets the shape that holds what the declared fields were
  given.
* `TypeFields.shape_eq_ok_iff_agreesOn`: two types get one shape exactly if they agree on the declared
  fields.
* `Builder.Call.Agrees.step`, `Builder.foldl_apply_of_agrees`: builders under one call and under many.
* `Builder.finish_eq_of_agrees`: answers, arenas and dumps.
-/

namespace AstDump

/-! ## Fields by kind -/

/-- The fields that a kind declares. -/
def TypeKind.declared : TypeKind → List Field
  | .generic => []
  | .function => [.returnType]
  | .functionProto =>
    [.returnType, .parameter, .exception, .noexceptExpr, .sourceDecl, .sourceTemplate]
  | .array => [.element]
  | .variableArray => [.element, .sizeExpr]
  | .pointer => [.pointee]
  | .tag => [.tagDecl]

/-- The fields that a kind asks for, in the order in which it does. -/
def TypeKind.mandatory : TypeKind → List Field
  | .generic => []
  | .function => [.returnType]
  | .functionProto => [.returnType]
  | .array => [.element]
  | .variableArray => [.element, .sizeExpr]
  | .pointer => [.pointee]
  | .tag => [.tagDecl]

theorem TypeKind.mandatory_subset_declared (k : TypeKind) : k.mandatory ⊆ k.declared := by
  cases k <;> decide

/-- The ids given for a field of a type. -/
def TypeFields.given (f : TypeFields) : Field → List NodeId
  | .returnType => f.returnType.toList
  | .parameter => f.params
  | .element => f.element.toList
  | .sizeExpr => f.sizeExpr.toList
  | .pointee => f.pointee.toList
  | .tagDecl => f.decl.toList
  | field => f.spec.held field

/-- The same ids are given for each of some fields. -/
def TypeFields.AgreesOn (f : TypeFields) (fields : List Field) (f' : TypeFields) : Prop :=
  ∀ g ∈ fields, f.given g = f'.given g

instance (fields : List Field) (f f' : TypeFields) : Decidable (f.AgreesOn fields f') :=
  inferInstanceAs (Decidable (∀ g ∈ fields, f.given g = f'.given g))

/-! ## Shapes by fields -/

theorem toList_eq_toList_iff {α : Type} {x y : Option α} : x.toList = y.toList ↔ x = y := by
  cases x <;> cases y <;> simp

theorem ExceptionSpec.eq_iff_held {s s' : ExceptionSpec} :
    s = s' ↔ ∀ g ∈ [.exception, .noexceptExpr, .sourceDecl, .sourceTemplate], s.held g = s'.held g := by
  cases s
  cases s'
  simp [ExceptionSpec.held, toList_eq_toList_iff]

/-- A shape keeps its fields if it holds what was given for those that its kind declares. -/
theorem TypeShape.keeps_iff {s : TypeShape} {f : TypeFields} :
    s.Keeps f ↔ ∀ g ∈ s.kind.declared, f.given g = s.held g := by
  cases s <;>
    simp [Keeps, kind, TypeKind.declared, held, TypeFields.given, ExceptionSpec.eq_iff_held]

namespace TypeFields

variable {f f' : TypeFields} {k : TypeKind} {s : TypeShape}

/-- A type is refused for the first field that its kind asks for and that is missing. -/
theorem shape_eq_error_iff {m : Field} :
    f.shape k = .error m ↔ k.mandatory.find? (fun g => (f.given g).isEmpty) = some m := by
  cases k with
  | generic => simp [shape, TypeKind.mandatory]
  | function => cases h : f.returnType <;> simp [shape, TypeKind.mandatory, given, h]
  | functionProto => cases h : f.returnType <;> simp [shape, TypeKind.mandatory, given, h]
  | array => cases h : f.element <;> simp [shape, TypeKind.mandatory, given, h]
  | variableArray =>
    cases h : f.element <;> cases h' : f.sizeExpr <;>
      simp [shape, TypeKind.mandatory, given, h, h']
  | pointer => cases h : f.pointee <;> simp [shape, TypeKind.mandatory, given, h]
  | tag => cases h : f.decl <;> simp [shape, TypeKind.mandatory, given, h]

/-- An accepted type gets the shape of its kind that holds what the declared fields were given. -/
theorem shape_eq_ok_iff :
    f.shape k = .ok s ↔ s.kind = k ∧ ∀ g ∈ k.declared, f.given g = s.held g := by
  constructor
  · intro h
    obtain rfl := kind_eq_of_shape_eq_ok h
    exact ⟨rfl, TypeShape.keeps_iff.1 (keeps_of_shape_eq_ok h)⟩
  · rintro ⟨rfl, h⟩
    have hkeeps := TypeShape.keeps_iff.2 h
    cases s <;> simp_all [shape, TypeShape.kind, TypeShape.Keeps]

/-- Two types get one shape exactly if they agree on the fields that their kind declares. -/
theorem shape_eq_ok_iff_agreesOn (h : f.shape k = .ok s) :
    f'.shape k = .ok s ↔ f.AgreesOn k.declared f' := by
  obtain ⟨hkind, hheld⟩ := shape_eq_ok_iff.1 h
  rw [shape_eq_ok_iff]
  constructor
  · rintro ⟨-, hheld'⟩ g hg
    rw [hheld g hg, hheld' g hg]
  · intro hagrees
    refine ⟨hkind, fun g hg => ?_⟩
    rw [← hagrees g hg, hheld g hg]

/-- Types that agree on the fields that their kind declares are accepted alike and refused alike. -/
theorem AgreesOn.shape_eq (h : f.AgreesOn k.declared f') : f'.shape k = f.shape k := by
  cases hshape : f.shape k with
  | ok s => exact (shape_eq_ok_iff_agreesOn hshape).2 h
  | error m =>
    -- What is asked for is declared, so the same field is missing first.
    rw [shape_eq_error_iff] at hshape ⊢
    rw [← hshape]
    refine List.find?_congr fun g hg => ?_
    rw [h g (k.mandatory_subset_declared hg)]

end TypeFields

/-! ## Calls that agree -/

/-- Two descriptions that differ at most in fields which the kind of a type does not declare. -/
inductive Description.Agrees : Description → Description → Prop
  | type {className : String} {desugared : Option NodeId} {fields fields' : TypeFields}
      (h : fields.AgreesOn (TypeKind.ofClass className).declared fields') :
    Agrees (.type className desugared fields) (.type className desugared fields')
  | refl (d : Description) : Agrees d d

namespace Builder

/-- Two calls whose descriptions agree. -/
inductive Call.Agrees : Call → Call → Prop
  | reserve : Agrees .reserve .reserve
  | define (id : NodeId) {d d' : Description} (h : d.Agrees d') : Agrees (.define id d) (.define id d')
  | add {d d' : Description} (h : d.Agrees d') : Agrees (.add d) (.add d')

/-- What calls to a builder answer, one after the other. -/
def answers : Builder → List Call → List (Except IngestError (Option NodeId))
  | _, [] => []
  | b, c :: calls => b.answer c :: (b.apply c).answers calls

/-- Descriptions that agree become the same node, or lack the same field. -/
theorem ingest_of_agrees {d d' : Description} (h : d.Agrees d') (id : NodeId)
    (classes : ClassNames) : ingest id classes d' = ingest id classes d := by
  cases h with
  | type hfields => simp only [ingest, hfields.shape_eq]
  | refl => rfl

theorem define_of_agrees {d d' : Description} (h : d.Agrees d') (b : Builder) (id : NodeId) :
    b.define id d' = b.define id d := by
  unfold define
  rw [ingest_of_agrees h]

/-- **The step.** A call that agrees with another gets the same answer and leaves the same builder. -/
theorem Call.Agrees.step {c c' : Call} (h : c.Agrees c') (b : Builder) :
    b.answer c' = b.answer c ∧ b.apply c' = b.apply c := by
  cases h with
  | reserve => exact ⟨rfl, rfl⟩
  | define id h => simp only [answer, apply, define_of_agrees h, and_self]
  | add h => simp only [answer, apply, Builder.add, define_of_agrees h, and_self]

/-- **The run.** So do many calls. -/
theorem foldl_apply_of_agrees {calls calls' : List Call} (h : List.Forall₂ Call.Agrees calls calls')
    (b : Builder) :
    b.answers calls' = b.answers calls ∧ calls'.foldl apply b = calls.foldl apply b := by
  induction h generalizing b with
  | nil => exact ⟨rfl, rfl⟩
  | @cons c c' calls calls' hc _ ih =>
    obtain ⟨hanswer, happly⟩ := hc.step b
    obtain ⟨hanswers, hfoldl⟩ := ih (b.apply c)
    refine ⟨?_, ?_⟩
    · rw [answers, answers, hanswer, happly, hanswers]
    · rw [List.foldl_cons, List.foldl_cons, happly, hfoldl]

/-- **Main result.** Of any calls, let each describe a type by other fields that agree with the given
    ones on what the kind of its class declares. Then each call gets the same answer, `finish` returns
    the same arena or the same fault, and every dump of the arena is the same, its log included. -/
theorem finish_eq_of_agrees {calls calls' : List Call} (h : List.Forall₂ Call.Agrees calls calls') :
    empty.answers calls' = empty.answers calls ∧
    (afterCalls calls').finish = (afterCalls calls).finish ∧
    ∀ {σ : Type} [Sink σ] (roots : List NodeId) (sink : σ) (config : Config),
      (afterCalls calls').finish.map (fun a => dumpRoots a roots sink config) =
        (afterCalls calls).finish.map fun a => dumpRoots a roots sink config := by
  obtain ⟨hanswers, hbuilder⟩ := foldl_apply_of_agrees h empty
  have hfinish : (afterCalls calls').finish = (afterCalls calls).finish :=
    congrArg finish hbuilder
  exact ⟨hanswers, hfinish, fun roots sink config => by rw [hfinish]⟩

/-- The calls of `linkedRecordCalls` with ids outside the arena, and of wrong categories, in fields that
    the kinds do not declare. -/
def litteredRecordCalls : List Call :=
  [.reserve,
   .add (.decl "FieldDecl" [⟨2⟩]),
   .add (.qualType ⟨3⟩ {}),
   .add (.type "PointerType" none
     { pointee := some ⟨4⟩, decl := some ⟨99⟩, params := [⟨0⟩], spec := { exceptions := [⟨77⟩] } }),
   .add (.qualType ⟨5⟩ { isConst := true }),
   .add (.type "RecordType" (some ⟨5⟩) { decl := some ⟨0⟩, returnType := some ⟨99⟩ }),
   .add (.decl "CXXMethodDecl" [⟨7⟩]),
   .add (.type "FunctionProtoType" none
     { returnType := some ⟨2⟩
       params := [⟨4⟩, ⟨2⟩]
       spec := { exceptions := [⟨4⟩], noexceptExpr := some ⟨8⟩, sourceDecl := some ⟨6⟩ }
       element := some ⟨8⟩
       sizeExpr := some NodeId.invalid }),
   .add (.stmt "CXXBoolLiteralExpr" []),
   .define ⟨0⟩ (.decl "CXXRecordDecl" [⟨1⟩, ⟨6⟩])]

/-- What is littered there changes neither an answer nor the arena. -/
theorem finish_eq_of_agrees_litteredRecord :
    List.Forall₂ Call.Agrees linkedRecordCalls litteredRecordCalls ∧
    empty.answers litteredRecordCalls = empty.answers linkedRecordCalls ∧
    (afterCalls litteredRecordCalls).finish = .ok Arena.linkedRecord := by
  have hagrees : List.Forall₂ Call.Agrees linkedRecordCalls litteredRecordCalls := by
    refine .cons .reserve <| .cons (.add (.refl _)) <| .cons (.add (.refl _)) <|
      .cons (.add (.type ?_)) <| .cons (.add (.refl _)) <| .cons (.add (.type ?_)) <|
      .cons (.add (.refl _)) <| .cons (.add (.type ?_)) <| .cons (.add (.refl _)) <|
      .cons (.define _ (.refl _)) .nil
    all_goals decide
  obtain ⟨hanswers, hfinish, -⟩ := finish_eq_of_agrees hagrees
  exact ⟨hagrees, hanswers, hfinish.trans (by decide +kernel)⟩

end Builder

end AstDump
