import Hiactor.Codegen.Generator

/-!
# Which generated methods are reached

The enumeration, the reference methods and the switch of one class agree. `do_work` of a
class with a base compares the type id of the message with the runtime type of the actor, so
a message for any other class runs down to the switch of the first class of the chain.
-/

namespace Hiactor.Codegen

/-! ## What the traversal keeps -/

theorem parseArguments_types {className method : String} {nodes : List ArgNode}
    {args : List ActorMethodArgInfo} (parsed : parseArguments className method nodes = .ok args) :
    args.map ActorMethodArgInfo.argType = nodes.map ArgNode.typeSpelling := by
  induction nodes generalizing args with
  | nil =>
    cases parsed
    rfl
  | cons node nodes ih =>
    unfold parseArguments at parsed
    split at parsed
    · cases parsed
    · cases rest : parseArguments className method nodes with
      | error message =>
        rw [rest] at parsed
        cases parsed
      | ok tail =>
        rw [rest] at parsed
        cases parsed
        simp [ih rest]

/-- A parsed method keeps the name and the argument types of its declaration. -/
theorem checkAndParseActorMethod_spec {className : String} {node : MethodNode}
    {method : ActorMethodInfo}
    (parsed : checkAndParseActorMethod className node = .ok method) :
    method.className = className ∧ method.methodName = node.spelling ∧
      method.argTypes = node.arguments.map ArgNode.typeSpelling := by
  unfold checkAndParseActorMethod at parsed
  split at parsed
  · cases parsed
  · split at parsed
    · cases parsed
    · cases arguments : parseArguments className node.spelling node.arguments with
      | error message =>
        rw [arguments] at parsed
        cases parsed
      | ok args =>
        rw [arguments] at parsed
        change (if args.length > 1 then _ else _) = _ at parsed
        split at parsed
        · cases parsed
        · cases parsed
          exact ⟨rfl, rfl, parseArguments_types arguments⟩

/-- Every method that the loop collects was there before or is declared by a child. -/
theorem traverseChildren_mem {node : ClassNode} {children : List ClassChild}
    {methods found : List ActorMethodInfo} {base result : Option BaseActorInfo}
    (traversed : traverseChildren node children methods base = .ok (found, result))
    {method : ActorMethodInfo} (member : method ∈ found) :
    method ∈ methods ∨ ∃ decl, .cxxMethod decl ∈ children ∧
      checkAndParseActorMethod node.spelling decl = .ok method := by
  induction children generalizing methods base with
  | nil =>
    cases traversed
    exact .inl member
  | cons child rest ih =>
    cases child with
    | cxxMethod decl =>
      unfold traverseChildren at traversed
      split at traversed
      · cases parsed : checkAndParseActorMethod node.spelling decl with
        | error message =>
          rw [parsed] at traversed
          cases traversed
        | ok info =>
          rw [parsed] at traversed
          rcases ih traversed with old | ⟨later, here, ok⟩
          · rcases List.mem_append.mp old with old | new
            · exact .inl old
            · refine .inr ⟨decl, List.mem_cons_self, ?_⟩
              rw [List.mem_singleton.mp new, parsed]
          · exact .inr ⟨later, List.mem_cons_of_mem _ here, ok⟩
      · rcases ih traversed with old | ⟨later, here, ok⟩
        · exact .inl old
        · exact .inr ⟨later, List.mem_cons_of_mem _ here, ok⟩
    | cxxBaseSpecifier decl =>
      unfold traverseChildren at traversed
      split at traversed
      · cases traversed
      · cases known : getBaseActorInfo node decl with
        | error message =>
          rw [known] at traversed
          cases traversed
        | ok info =>
          rw [known] at traversed
          rcases ih traversed with old | ⟨later, here, ok⟩
          · exact .inl old
          · exact .inr ⟨later, List.mem_cons_of_mem _ here, ok⟩

theorem lookup_zipIdx {α : Type} {name : α → String} {entries : List α} {entry : α}
    {position : Nat} (distinct : (entries.map name).Nodup)
    (stored : entries[position]? = some entry) (start : Nat) :
    ((entries.zipIdx start).map fun (entry, i) => (name entry, i)).lookup (name entry) =
      some (start + position) := by
  induction entries generalizing position start with
  | nil => cases stored
  | cons head tail ih =>
    rw [List.map_cons, List.nodup_cons] at distinct
    cases position with
    | zero =>
      cases stored
      simp
    | succ position =>
      rw [List.getElem?_cons_succ] at stored
      have later : (name entry == name head) = false := by
        refine beq_eq_false_iff_ne.mpr (fun same => distinct.1 ?_)
        exact List.mem_map.mpr ⟨entry, List.mem_of_getElem? stored, same⟩
      have tailValue := ih distinct.2 stored (start + 1)
      simp only [List.zipIdx_cons, List.map_cons, List.lookup_cons, later]
      rw [tailValue]
      congr 1
      omega

namespace ActorClass

variable {cls : ActorClass} {method other : ActorMethodInfo}

/-- The methods of a class are among the declarations of its body. -/
theorem method_declared (member : method ∈ cls.info.methods) :
    ∃ decl ∈ cls.node.declared,
      checkAndParseActorMethod cls.node.spelling decl = .ok method := by
  have generated := cls.generated
  unfold actorCodeGenInfo traverseActorComponents at generated
  cases traversed : traverseChildren cls.node cls.node.children [] none with
  | error message =>
    rw [traversed] at generated
    cases generated
  | ok pair =>
    obtain ⟨methods, base⟩ := pair
    rw [traversed] at generated
    cases base with
    | none => cases generated
    | some base =>
      have sorted : methods.insertionSort (fun a b => a.methodName ≤ b.methodName) =
          cls.info.methods :=
        congrArg ActorCodeGenInfo.methods (Except.ok.inj generated)
      rw [← sorted, List.mem_insertionSort] at member
      rcases traverseChildren_mem traversed member with none | ⟨decl, here, parsed⟩
      · cases none
      · exact ⟨decl, List.mem_filterMap.mpr ⟨_, here, rfl⟩, parsed⟩

theorem method_className (member : method ∈ cls.info.methods) :
    method.className = cls.node.spelling := by
  obtain ⟨decl, -, parsed⟩ := method_declared member
  exact (checkAndParseActorMethod_spec parsed).1

theorem declares_method (member : method ∈ cls.info.methods) :
    cls.declares method.methodName method.argTypes = true := by
  obtain ⟨decl, here, parsed⟩ := method_declared member
  obtain ⟨-, name, types⟩ := checkAndParseActorMethod_spec parsed
  refine List.any_eq_true.mpr ⟨decl, here, ?_⟩
  simp [name, types]

/-! ## The three generated parts of one class agree -/

variable (enumerators : (cls.info.methods.map ActorMethodInfo.enumTypeName).Nodup)

include enumerators

theorem eq_of_methodName (member : method ∈ cls.info.methods) (present : other ∈ cls.info.methods)
    (same : other.methodName = method.methodName) : other = method := by
  refine List.inj_on_of_nodup_map enumerators present member ?_
  unfold ActorMethodInfo.enumTypeName
  rw [same, method_className member, method_className present]

/-- The enumerator of a method is its position in the sorted list. -/
theorem enumValue_eq_some {position : Nat} :
    cls.enumValue method.enumTypeName = some position ∧ method ∈ cls.info.methods ↔
      cls.info.methods[position]? = some method := by
  constructor
  · rintro ⟨value, member⟩
    obtain ⟨actual, stored⟩ := List.mem_iff_getElem?.mp member
    have known := lookup_zipIdx enumerators stored 0
    rw [Nat.zero_add] at known
    rw [enumValue, generateActorMethodEnum, known] at value
    rw [← Option.some.inj value, stored]
  · intro stored
    have known := lookup_zipIdx enumerators stored 0
    rw [Nat.zero_add] at known
    exact ⟨known, List.mem_of_getElem? stored⟩

/-- The switch calls the method at the position of the behavior, unless that is pure. -/
theorem switch_eq (behaviorTid : Nat) :
    cls.switch behaviorTid =
      (cls.info.methods[behaviorTid]?).filter (fun method => !method.isPureVirtual) := by
  -- a case whose label has the value of the behavior stands for the method at that position
  have stands : ∀ processor ∈ (generateActorDoWork cls.info).processors,
      (cls.enumValue processor.label == some behaviorTid) = true →
        cls.info.methods[behaviorTid]? = some processor.method ∧
          processor.method.isPureVirtual = false := by
    intro processor listed value
    obtain ⟨source, kept, rfl⟩ := List.mem_map.mp listed
    obtain ⟨member, notPure⟩ := List.mem_filter.mp kept
    exact ⟨(enumValue_eq_some enumerators).mp ⟨eq_of_beq value, member⟩, by simpa using notPure⟩
  ext called
  rw [Option.filter_eq_some_iff]
  constructor
  · intro found
    obtain ⟨processor, first, rfl⟩ := Option.map_eq_some_iff.mp found
    have value := List.find?_some first
    obtain ⟨stored, notPure⟩ := stands processor (List.mem_of_find?_eq_some first) value
    exact ⟨stored, by simp [notPure]⟩
  · rintro ⟨stored, notPure⟩
    obtain ⟨value, member⟩ := (enumValue_eq_some enumerators).mpr stored
    have listed : (⟨called.enumTypeName, called⟩ : SwitchCase) ∈
        (generateActorDoWork cls.info).processors :=
      List.mem_map.mpr ⟨called, List.mem_filter.mpr ⟨member, notPure⟩, rfl⟩
    cases first : (generateActorDoWork cls.info).processors.find?
        (fun processor => cls.enumValue processor.label == some behaviorTid) with
    | none =>
      have missing := List.find?_eq_none.mp first _ listed
      simp [value] at missing
    | some processor =>
      have valueHere := List.find?_some first
      obtain ⟨storedHere, -⟩ := stands processor (List.mem_of_find?_eq_some first) valueHere
      rw [stored] at storedHere
      rw [switch, first, Option.map_some, Option.some.inj storedHere]

end ActorClass

/-! ## Running down the chain -/

namespace InheritanceChain

variable {chain : InheritanceChain} {cls : ActorClass} {method : ActorMethodInfo}

theorem runtime_mem : chain.runtime ∈ chain.classes := List.head_mem chain.nonempty

theorem first_mem : chain.first ∈ chain.classes := List.getLast_mem chain.nonempty

theorem eq_of_typeId {other : ActorClass} (member : cls ∈ chain.classes)
    (present : other ∈ chain.classes) (same : cls.info.typeId = other.info.typeId) :
    cls = other :=
  List.inj_on_of_nodup_map chain.distinct member present same

theorem first_mem_after {before after : List ActorClass}
    (shape : chain.classes = before ++ cls :: after) (more : after ≠ []) :
    chain.first ∈ after := by
  have last : chain.first = after.getLast more := by
    simp [first, shape, more]
  rw [last]
  exact List.getLast_mem more

theorem classes_nodup : chain.classes.Nodup := List.Nodup.of_map _ chain.distinct

/-- What the switch of a class does with a message. -/
def switchBehavior (chain : InheritanceChain) (msg : Message) (cls : ActorClass) : Outcome :=
  match cls.switch msg.behaviorTid with
  | some method => chain.invoke cls method
  | none => .stopReaction

/-- A message for the runtime type is dispatched by the first class it comes to. -/
theorem execDoWork_own {msg : Message} (own : msg.methodActorTid = chain.runtime.info.typeId)
    (bases : List ActorClass) :
    chain.execDoWork msg (cls :: bases) = chain.switchBehavior msg cls := by
  unfold execDoWork switchBehavior
  simp only [own, ne_eq, not_true_eq_false, if_false]
  split <;> rfl

/-- A message for another type is dispatched by the last class of the chain. -/
theorem execDoWork_other {msg : Message} {classes : List ActorClass}
    (other : msg.methodActorTid ≠ chain.runtime.info.typeId) (nonempty : classes ≠ [])
    (linked : classes.IsChain fun derived base =>
      derived.info.baseInfo.isTemplate = false ∧
        derived.info.baseInfo.getActorName = "::" ++ base.node.qualifiedName)
    (template : (classes.getLast nonempty).info.baseInfo.isTemplate = true) :
    chain.execDoWork msg classes = chain.switchBehavior msg (classes.getLast nonempty) := by
  induction classes with
  | nil => exact absurd rfl nonempty
  | cons head tail ih =>
    cases tail with
    | nil =>
      rw [List.getLast_singleton] at template ⊢
      simp only [execDoWork, generateActorDoWork, template, if_true]
      rfl
    | cons base rest =>
      obtain ⟨⟨notTemplate, -⟩, tailLinked⟩ := List.isChain_cons_cons.mp linked
      rw [List.getLast_cons (List.cons_ne_nil base rest)] at template ⊢
      have tailResult := ih (List.cons_ne_nil base rest) tailLinked template
      rw [← tailResult]
      conv_lhs => unfold execDoWork
      simp [generateActorDoWork, notTemplate, other]

/-- The class whose switch dispatches a message. -/
theorem doWork_eq (msg : Message) :
    chain.doWork msg =
      if msg.methodActorTid = chain.runtime.info.typeId then
        chain.switchBehavior msg chain.runtime
      else chain.switchBehavior msg chain.first := by
  split
  · rename_i own
    have shape : chain.classes = chain.runtime :: chain.classes.tail :=
      (List.cons_head_tail chain.nonempty).symm
    rw [doWork, shape, execDoWork_own own]
  · rename_i other
    exact execDoWork_other other chain.nonempty chain.linked chain.template

/-! ## Virtual calls -/

/-- The class in which a call of a method runs. -/
theorem invoke_eq (member : cls ∈ chain.classes) (listed : method ∈ cls.info.methods) :
    ∃ runs ∈ chain.classes,
      chain.invoke cls method = .invoked runs.info.typeId method.methodName method.argTypes ∧
        (cls ≠ chain.first → runs ≠ chain.first) := by
  by_cases isVirtual : method.isVirtual = true
  · cases found : chain.classes.find?
        (fun derived => derived.declares method.methodName method.argTypes) with
    | none =>
      have undeclared := List.find?_eq_none.mp found cls member
      exact absurd (ActorClass.declares_method listed) undeclared
    | some runs =>
      refine ⟨runs, List.mem_of_find?_eq_some found, by simp [invoke, isVirtual, found], ?_⟩
      intro notFirst isFirst
      -- the classes before `runs` do not declare the method, and no class comes after the last
      obtain ⟨-, before, after, shape, undeclared⟩ :=
        List.find?_eq_some_iff_append.mp found
      have distinct := chain.classes_nodup
      rw [shape] at member distinct
      rcases List.mem_append.mp member with early | late
      · have missing := undeclared cls early
        rw [ActorClass.declares_method listed] at missing
        exact absurd missing (by decide)
      · have notRuns : cls ≠ runs := fun same => notFirst (same.trans isFirst)
        have later : cls ∈ after := (List.mem_cons.mp late).resolve_left notRuns
        have again := first_mem_after shape (List.ne_nil_of_mem later)
        rw [← isFirst] at again
        exact (List.nodup_cons.mp (List.nodup_append.mp distinct).2.1).1 again
  · exact ⟨cls, member, by simp [invoke, isVirtual], fun notFirst => notFirst⟩

/-! ## Which methods are reached -/

theorem Exposes.mem (exposed : chain.Exposes cls method) : cls ∈ chain.classes :=
  List.mem_of_find?_eq_some exposed.visible

/-- The message of a reference method carries the type id of its class and the position of the
method in the sorted list of the class. -/
theorem reaches_iff_doWork {position : Nat} (exposed : chain.Exposes cls method)
    (stored : cls.info.methods[position]? = some method) :
    chain.Reaches cls method ↔
      chain.doWork ⟨cls.info.typeId, position⟩ = chain.invoke cls method := by
  have enumerators := chain.enumerators cls exposed.mem
  obtain ⟨value, -⟩ := (ActorClass.enumValue_eq_some enumerators).mpr stored
  constructor
  · rintro ⟨refMethod, generated, name, msg, built, reached⟩
    obtain ⟨source, kept, rfl⟩ := List.mem_map.mp generated
    have same : source = method :=
      ActorClass.eq_of_methodName enumerators exposed.annotated (List.mem_filter.mp kept).1 name
    subst same
    simp only [ActorClass.refMessage, value, Option.map_some, Option.some.injEq] at built
    rw [built]
    exact reached
  · intro reached
    refine ⟨_, List.mem_map.mpr ⟨method, List.mem_filter.mpr ⟨exposed.annotated, ?_⟩, rfl⟩, rfl,
      ⟨cls.info.typeId, position⟩, ?_, reached⟩
    · simp [exposed.notPure]
    · simp [ActorClass.refMessage, value]

/-- The switch of the class that owns the method calls it. -/
theorem switchBehavior_own {position : Nat} (exposed : chain.Exposes cls method)
    (stored : cls.info.methods[position]? = some method) (tid : UInt16) :
    chain.switchBehavior ⟨tid, position⟩ cls = chain.invoke cls method := by
  have called : cls.switch position = some method := by
    rw [ActorClass.switch_eq (chain.enumerators cls exposed.mem), stored]
    simp [exposed.notPure]
  simp only [switchBehavior, called]

/-- Between the ends of the chain, the switch of the first class calls the method exactly when
the method overrides the one that this switch has at the same position. -/
theorem switchBehavior_first_iff {position : Nat} (exposed : chain.Exposes cls method)
    (between : cls ≠ chain.first) (tid : UInt16) :
    chain.switchBehavior ⟨tid, position⟩ chain.first = chain.invoke cls method ↔
      ∃ sibling, chain.first.info.methods[position]? = some sibling ∧
        sibling.isPureVirtual = false ∧ sibling.isVirtual = true ∧
        sibling.methodName = method.methodName ∧ sibling.argTypes = method.argTypes := by
  obtain ⟨runs, runsMember, runsIn, runsDerived⟩ := invoke_eq exposed.mem exposed.annotated
  unfold switchBehavior
  rw [ActorClass.switch_eq (chain.enumerators _ first_mem)]
  constructor
  · intro reached
    cases stored : chain.first.info.methods[position]? with
    | none =>
      rw [stored, runsIn] at reached
      cases reached
    | some sibling =>
      cases pure : sibling.isPureVirtual with
      | true =>
        rw [stored, runsIn] at reached
        simp [Option.filter, pure] at reached
      | false =>
        have called : chain.invoke chain.first sibling = chain.invoke cls method := by
          simpa [stored, Option.filter, pure] using reached
        refine ⟨sibling, rfl, pure, ?_⟩
        cases isVirtual : sibling.isVirtual with
        | true =>
          obtain ⟨_, _, siblingIn, _⟩ := invoke_eq first_mem (List.mem_of_getElem? stored)
          rw [siblingIn, runsIn] at called
          injection called with _ name types
          exact ⟨rfl, name, types⟩
        | false =>
          -- a method that is not virtual runs in the first class, which `runs` is not
          rw [runsIn] at called
          simp only [invoke, isVirtual, Bool.false_eq_true, if_false] at called
          injection called with tids
          exact absurd (eq_of_typeId runsMember first_mem tids.symm) (runsDerived between)
  · rintro ⟨sibling, stored, pure, isVirtual, name, types⟩
    have derivedVirtual : method.isVirtual = true := by
      obtain ⟨before, after, shape⟩ := List.append_of_mem exposed.mem
      have lastLater : chain.first ∈ after := by
        refine first_mem_after shape (fun none => between ?_)
        simp [first, shape, none]
      have overriding := chain.overriding
      rw [shape] at overriding
      exact (List.pairwise_cons.mp (List.pairwise_append.mp overriding).2.1).1 _ lastLater
        method exposed.annotated sibling (List.mem_of_getElem? stored) isVirtual name types
    have siblingCalled : chain.invoke chain.first sibling = chain.invoke cls method := by
      cases found : chain.classes.find?
          (fun derived => derived.declares method.methodName method.argTypes) with
      | none =>
        have undeclared := List.find?_eq_none.mp found cls exposed.mem
        exact absurd (ActorClass.declares_method exposed.annotated) undeclared
      | some derived => simp [invoke, isVirtual, derivedVirtual, name, types, found]
    simp [stored, Option.filter, pure, siblingCalled]

/-- A generated reference method reaches its method exactly when the method belongs to the
runtime class or to the first class of the chain, or overrides the virtual method that the
first class has at the same position. -/
theorem reaches_iff {position : Nat} (exposed : chain.Exposes cls method)
    (stored : cls.info.methods[position]? = some method) :
    chain.Reaches cls method ↔
      cls = chain.runtime ∨ cls = chain.first ∨
        ∃ sibling, chain.first.info.methods[position]? = some sibling ∧
          sibling.isPureVirtual = false ∧ sibling.isVirtual = true ∧
          sibling.methodName = method.methodName ∧ sibling.argTypes = method.argTypes := by
  rw [reaches_iff_doWork exposed stored, doWork_eq]
  by_cases own : cls = chain.runtime
  · rw [if_pos (by rw [own]), ← own]
    simp [switchBehavior_own exposed stored]
  · have other : cls.info.typeId ≠ chain.runtime.info.typeId :=
      fun same => own (eq_of_typeId exposed.mem runtime_mem same)
    rw [if_neg other]
    by_cases isFirst : cls = chain.first
    · rw [← isFirst]
      simp [switchBehavior_own exposed stored]
    · rw [switchBehavior_first_iff exposed isFirst]
      simp [own, isFirst]

end InheritanceChain

/-! ## Three levels -/

/-- A public annotated method without arguments that returns a future of an integer. -/
def plainMethod (name : String) : MethodNode where
  spelling := name
  annotated := true
  isPublic := true
  resultType := "seastar::future<int>"
  canonicalResultType := "seastar::future<int>"
  templateArgument := "int"
  arguments := []
  overrideAttrs := []
  isVirtual := false
  isPureVirtual := false

/-- An actor class with one such method. -/
def plainClass (name base method : String) : ClassNode where
  spelling := name
  nsList := []
  file := "levels.act.h"
  children := [.cxxBaseSpecifier ⟨base, "levels.act.h"⟩, .cxxMethod (plainMethod method)]

/-- What the generator records of `plainMethod`. -/
def plainMethodInfo (cls name : String) : ActorMethodInfo where
  className := cls
  methodName := name
  returnType := "seastar::future<int>"
  templateType := "int"
  args := []
  isVirtual := false
  isPureVirtual := false
  overrideSpecifier := ""

def shapeClass : ActorClass where
  node := plainClass "shape" "hiactor::actor" "area"
  info := ⟨"shape", [], 1, [plainMethodInfo "shape" "area"], ⟨"::hiactor::actor", true, ""⟩⟩
  generated := by rfl

def polygonClass : ActorClass where
  node := plainClass "polygon" "shape" "edges"
  info := ⟨"polygon", [], 2, [plainMethodInfo "polygon" "edges"], ⟨"::shape", false, ""⟩⟩
  generated := by rfl

def squareClass : ActorClass where
  node := plainClass "square" "polygon" "width"
  info := ⟨"square", [], 3, [plainMethodInfo "square" "width"], ⟨"::polygon", false, ""⟩⟩
  generated := by rfl

/-- `hiactor::actor <- shape <- polygon <- square`. -/
def squareChain : InheritanceChain where
  classes := [squareClass, polygonClass, shapeClass]
  nonempty := by simp
  linked := by simp [squareClass, polygonClass, shapeClass, plainClass, BaseActorInfo.getActorName,
    ClassNode.qualifiedName]
  template := rfl
  distinct := by decide
  enumerators := by simp [squareClass, polygonClass, shapeClass]
  overriding := by simp [squareClass, polygonClass, shapeClass, plainMethodInfo]

/-- The method of the first class is reached on an actor of the third. -/
theorem square_reaches_area :
    squareChain.Exposes shapeClass (plainMethodInfo "shape" "area") ∧
      squareChain.Reaches shapeClass (plainMethodInfo "shape" "area") := by
  have exposed : squareChain.Exposes shapeClass (plainMethodInfo "shape" "area") :=
    ⟨rfl, List.mem_cons_self, rfl⟩
  refine ⟨exposed, ?_⟩
  exact (InheritanceChain.reaches_iff exposed (rfl : shapeClass.info.methods[0]? = some _)).mpr
    (.inr (.inl rfl))

/-- The method of the second class is not: its message calls the method of the first class. -/
theorem square_edges_calls_area :
    squareChain.Exposes polygonClass (plainMethodInfo "polygon" "edges") ∧
      squareChain.doWork ⟨2, 0⟩ = .invoked 1 "area" [] ∧
      ¬ squareChain.Reaches polygonClass (plainMethodInfo "polygon" "edges") := by
  have exposed : squareChain.Exposes polygonClass (plainMethodInfo "polygon" "edges") :=
    ⟨rfl, List.mem_cons_self, rfl⟩
  refine ⟨exposed, rfl, ?_⟩
  rw [InheritanceChain.reaches_iff_doWork exposed (rfl : polygonClass.info.methods[0]? = some _)]
  decide

end Hiactor.Codegen
