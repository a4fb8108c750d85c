import Mathlib.Data.List.Sort
import Mathlib.Data.List.Chain

/-!
# The code generator

Model of `codegen/traverse.py`, `codegen/typedef.py` and `codegen/generator.py`: from the
declaration of an actor class to its method enumeration, its reference methods and its
`do_work`. The input is what the generator reads of a clang cursor; the output is the
generated code as data instead of as text, and `execDoWork` says what the C++ text of
`do_work` does.
-/

namespace Hiactor.Codegen

/-! ## What is read of the cursors -/

/-- An argument of a method. -/
structure ArgNode where
  spelling : String
  typeSpelling : String
  isRvalueReference : Bool
  typeRef : Option String
  deriving DecidableEq, Repr

/-- The attribute children of a method that `check_and_parse_actor_method` looks at. -/
inductive OverrideAttr where
  | cxxOverrideAttr
  | cxxFinalAttr
  deriving DecidableEq, Repr

/-- A `CXX_METHOD` child of a class. `annotated` is `check_attribute(child, "actor:method")`. -/
structure MethodNode where
  spelling : String
  annotated : Bool
  isPublic : Bool
  resultType : String
  canonicalResultType : String
  templateArgument : String
  arguments : List ArgNode
  overrideAttrs : List OverrideAttr
  isVirtual : Bool
  isPureVirtual : Bool
  deriving DecidableEq, Repr

/-- The type node of a `CXX_BASE_SPECIFIER` child. -/
structure BaseNode where
  typeSpelling : String
  file : String
  deriving DecidableEq, Repr

/-- The children of a class that the traversal looks at. -/
inductive ClassChild where
  | cxxMethod (method : MethodNode)
  | cxxBaseSpecifier (base : BaseNode)
  deriving DecidableEq, Repr

/-- An annotated actor class and the namespaces that it stands in. -/
structure ClassNode where
  spelling : String
  nsList : List String
  file : String
  children : List ClassChild
  deriving DecidableEq, Repr

/-- `get_name_with_namespace` with `"::"`. -/
def ClassNode.qualifiedName (node : ClassNode) : String :=
  if node.nsList.length > 0 then
    "::".intercalate node.nsList ++ "::" ++ node.spelling
  else node.spelling

/-- The methods that the body of the class declares, annotated or not. -/
def ClassNode.declared (node : ClassNode) : List MethodNode :=
  node.children.filterMap fun
    | .cxxMethod method => some method
    | .cxxBaseSpecifier _ => none

/-! ## The records of `typedef.py` -/

structure ActorMethodArgInfo where
  argType : String
  argName : String
  noRefType : Option String
  deriving DecidableEq, Repr

structure ActorMethodInfo where
  className : String
  methodName : String
  returnType : String
  templateType : String
  args : List ActorMethodArgInfo
  isVirtual : Bool
  isPureVirtual : Bool
  overrideSpecifier : String
  deriving DecidableEq, Repr

/-- `enum_type_name`. -/
def ActorMethodInfo.enumTypeName (method : ActorMethodInfo) : String :=
  "k_" ++ method.className ++ "_" ++ method.methodName

structure BaseActorInfo where
  typeName : String
  isTemplate : Bool
  locationFile : String
  deriving DecidableEq, Repr

/-- `get_actor_name`. -/
def BaseActorInfo.getActorName (base : BaseActorInfo) : String :=
  if base.isTemplate then "::hiactor::actor" else base.typeName

structure ActorCodeGenInfo where
  name : String
  nsList : List String
  typeId : UInt16
  methods : List ActorMethodInfo
  baseInfo : BaseActorInfo
  deriving DecidableEq, Repr

/-! ## `traverse.py` -/

/-- `get_base_actor_info`. -/
def getBaseActorInfo (node : ClassNode) (base : BaseNode) : Except String BaseActorInfo :=
  let isTemplate := base.typeSpelling == "hiactor::actor"
  if !isTemplate && node.file != base.file then
    if ".act.h".toList.isSuffixOf base.file.toList then
      .ok ⟨"::" ++ base.typeSpelling, isTemplate, base.file⟩
    else
      .error ("Wrong location of base actor: " ++ base.file ++
        ", file name must end with .act.h")
  else .ok ⟨"::" ++ base.typeSpelling, isTemplate, ""⟩

/-- The arguments of a method, each of which must be an rvalue reference. -/
def parseArguments (className method : String) :
    List ArgNode → Except String (List ActorMethodArgInfo)
  | [] => .ok []
  | arg :: rest =>
    if !arg.isRvalueReference then
      .error ("Argument " ++ arg.spelling ++ " of method " ++ method ++ " in actor class " ++
        className ++ " should be a rvalue-reference!")
    else do
      let args ← parseArguments className method rest
      .ok (⟨arg.typeSpelling, arg.spelling, arg.typeRef⟩ :: args)

/-- The specifier that the last attribute child leaves. -/
def overrideSpecifier (attrs : List OverrideAttr) : String :=
  attrs.foldl (fun _ attr => match attr with
    | .cxxOverrideAttr => "override"
    | .cxxFinalAttr => "final") ""

/-- `check_and_parse_actor_method`. -/
def checkAndParseActorMethod (className : String) (node : MethodNode) :
    Except String ActorMethodInfo := do
  if !node.isPublic then
    .error ("Method " ++ node.spelling ++ " in actor class " ++ className ++ " must be public!")
  else if node.resultType != "void" &&
      !"seastar::future".toList.isPrefixOf node.canonicalResultType.toList then
    .error ("The return type " ++ node.resultType ++ " of method " ++ node.spelling ++
      " in actor class " ++ className ++ " should be void or seastar::future!")
  else
    let arguments ← parseArguments className node.spelling node.arguments
    if arguments.length > 1 then
      .error ("Method " ++ node.spelling ++ " in actor class " ++ className ++
        " should not contains more than one argument!")
    else
      .ok { className := className
            methodName := node.spelling
            returnType := node.resultType
            templateType := if node.resultType == "void" then "" else node.templateArgument
            args := arguments
            isVirtual := node.isVirtual
            isPureVirtual := node.isPureVirtual
            overrideSpecifier := overrideSpecifier node.overrideAttrs }

/-- The loop of `traverse_actor_components` over the children of a class. -/
def traverseChildren (node : ClassNode) :
    List ClassChild → List ActorMethodInfo → Option BaseActorInfo →
      Except String (List ActorMethodInfo × Option BaseActorInfo)
  | [], methods, baseInfo => .ok (methods, baseInfo)
  | .cxxMethod method :: rest, methods, baseInfo =>
    if method.annotated then do
      let parsed ← checkAndParseActorMethod node.spelling method
      traverseChildren node rest (methods ++ [parsed]) baseInfo
    else traverseChildren node rest methods baseInfo
  | .cxxBaseSpecifier base :: rest, methods, baseInfo =>
    if baseInfo.isSome then
      .error ("Invalid actor: " ++ node.spelling ++
        ", each actor must be exactly derived from one base actor!")
    else do
      let found ← getBaseActorInfo node base
      traverseChildren node rest methods (some found)

/-- `traverse_actor_components`: the methods come out sorted by name. -/
def traverseActorComponents (node : ClassNode) :
    Except String (List ActorMethodInfo × Option BaseActorInfo) := do
  let (methods, baseInfo) ← traverseChildren node node.children [] none
  .ok (methods.insertionSort (fun a b => a.methodName ≤ b.methodName), baseInfo)

/-- The record that `traverse_actor_types` appends for an annotated class. A class without a
base gets no code: the generator fails at the first attribute of its `base_info`. -/
def actorCodeGenInfo (node : ClassNode) (typeId : UInt16) : Except String ActorCodeGenInfo := do
  let (methods, baseInfo) ← traverseActorComponents node
  match baseInfo with
  | none => .error "'NoneType' object has no attribute 'get_ref_name'"
  | some base => .ok ⟨node.spelling, node.nsList, typeId, methods, base⟩

/-! ## `generator.py` -/

/-- `generate_actor_method_enum`: the enumerators of `enum : uint8_t` with their values. -/
def generateActorMethodEnum (info : ActorCodeGenInfo) : List (String × Nat) :=
  info.methods.zipIdx.map fun (method, enumId) => (method.enumTypeName, enumId)

/-- Which function of `actor_client` a reference method calls. -/
inductive ClientFunc where
  | send
  | request (resultType : String)
  deriving DecidableEq, Repr

/-- The body of a generated reference method: the argument of `set_method_actor_tid`, and the
enumerator that goes to `actor_client`. -/
structure RefMethod where
  methodName : String
  methodActorTid : UInt16
  behavior : String
  client : ClientFunc
  deriving DecidableEq, Repr

/-- `generate_actor_ref_method_defs`. -/
def generateActorRefMethodDefs (info : ActorCodeGenInfo) : List RefMethod :=
  (info.methods.filter (fun method => !method.isPureVirtual)).map fun method =>
    { methodName := method.methodName
      methodActorTid := info.typeId
      behavior := method.enumTypeName
      client := if method.returnType == "void" then .send else .request method.templateType }

/-- One `case` of the generated switch: its label and the method that it calls on `this`. -/
structure SwitchCase where
  label : String
  method : ActorMethodInfo
  deriving DecidableEq, Repr

/-- The generated `do_work`: the base whose `do_work` gets the messages for other types, if
there is one, and the switch. -/
structure DoWork where
  baseAction : Option String
  processors : List SwitchCase
  deriving DecidableEq, Repr

/-- `generate_actor_do_work`. -/
def generateActorDoWork (info : ActorCodeGenInfo) : DoWork where
  baseAction := if info.baseInfo.isTemplate then none else some info.baseInfo.getActorName
  processors := (info.methods.filter (fun method => !method.isPureVirtual)).map
    fun method => ⟨method.enumTypeName, method⟩

/-! ## Inheritance chains -/

/-- The part of a message that `do_work` reads. -/
structure Message where
  methodActorTid : UInt16
  behaviorTid : Nat
  deriving DecidableEq, Repr

/-- A class with its type id and what the generator made of it. -/
structure ActorClass where
  node : ClassNode
  info : ActorCodeGenInfo
  generated : actorCodeGenInfo node info.typeId = .ok info

namespace ActorClass

/-- The value of an enumerator of the class. -/
def enumValue (cls : ActorClass) (enumerator : String) : Option Nat :=
  (generateActorMethodEnum cls.info).lookup enumerator

/-- The method that the generated switch calls for a behavior. -/
def switch (cls : ActorClass) (behaviorTid : Nat) : Option ActorMethodInfo :=
  ((generateActorDoWork cls.info).processors.find?
    (fun processor => cls.enumValue processor.label == some behaviorTid)).map SwitchCase.method

/-- The message that a reference method of the class builds. -/
def refMessage (cls : ActorClass) (refMethod : RefMethod) : Option Message :=
  (cls.enumValue refMethod.behavior).map fun value => ⟨refMethod.methodActorTid, value⟩

/-- The class declares a method with this name and these argument types. -/
def declares (cls : ActorClass) (name : String) (argTypes : List String) : Bool :=
  cls.node.declared.any fun method =>
    method.spelling == name && method.arguments.map ArgNode.typeSpelling == argTypes

end ActorClass

/-- The argument types of a method, which with its name decide what overrides it. -/
def ActorMethodInfo.argTypes (method : ActorMethodInfo) : List String :=
  method.args.map ActorMethodArgInfo.argType

/-- `hiactor::actor <- A1 <- ... <- An`, the most derived class first. The conditions are those
of a program that compiles, and the distinct type ids. -/
structure InheritanceChain where
  classes : List ActorClass
  nonempty : classes ≠ []
  /-- Each class names the next one as its base, and the last one names the template. -/
  linked : classes.IsChain fun derived base =>
    derived.info.baseInfo.isTemplate = false ∧
      derived.info.baseInfo.getActorName = "::" ++ base.node.qualifiedName
  template : (classes.getLast nonempty).info.baseInfo.isTemplate = true
  distinct : (classes.map fun cls => cls.info.typeId).Nodup
  /-- Enumerators of one enumeration have distinct names. -/
  enumerators : ∀ cls ∈ classes, (cls.info.methods.map ActorMethodInfo.enumTypeName).Nodup
  /-- A method with the name and the argument types of a virtual method of a base is virtual. -/
  overriding : classes.Pairwise fun derived base =>
    ∀ method ∈ derived.info.methods, ∀ overridden ∈ base.info.methods,
      overridden.isVirtual = true → overridden.methodName = method.methodName →
        overridden.argTypes = method.argTypes → method.isVirtual = true

/-- What one call of `do_work` does: it calls the body of a method that a class declares, or it
takes the default branch, which answers `stop_reaction::yes`. A call of the pure virtual
`do_work` of `hiactor::actor` is undefined. -/
inductive Outcome where
  | invoked (declaring : UInt16) (methodName : String) (argTypes : List String)
  | stopReaction
  | undefined
  deriving DecidableEq, Repr

namespace InheritanceChain

variable (chain : InheritanceChain)

/-- The runtime class `An`. -/
def runtime : ActorClass := chain.classes.head chain.nonempty

/-- `A1`. -/
def first : ActorClass := chain.classes.getLast chain.nonempty

/-- C++ member call `self->method(...)` with the static type `cls`: a virtual method runs in the
most derived class that declares it, any other one in `cls`. -/
def invoke (cls : ActorClass) (method : ActorMethodInfo) : Outcome :=
  if method.isVirtual then
    match chain.classes.find? fun derived =>
        derived.declares method.methodName method.argTypes with
    | some derived => .invoked derived.info.typeId method.methodName method.argTypes
    | none => .invoked cls.info.typeId method.methodName method.argTypes
  else .invoked cls.info.typeId method.methodName method.argTypes

/-- The generated `do_work` of the first class of the list, on an actor of type `runtime`.
`actor_type_id()` is loaded from the address of the actor, so it is the same in every class. -/
def execDoWork (msg : Message) : List ActorClass → Outcome
  | [] => .undefined
  | cls :: bases =>
    let switchBehavior :=
      match cls.switch msg.behaviorTid with
      | some method => chain.invoke cls method
      | none => .stopReaction
    match (generateActorDoWork cls.info).baseAction with
    | some _ =>
      if msg.methodActorTid ≠ chain.runtime.info.typeId then execDoWork msg bases
      else switchBehavior
    | none => switchBehavior

/-- `An::do_work`. -/
def doWork (msg : Message) : Outcome := chain.execDoWork msg chain.classes

/-- Name lookup in the reference class of `An`: the most derived reference class that declares
the name hides the others. -/
def refLookup (name : String) : Option ActorClass :=
  chain.classes.find? fun cls => cls.info.methods.any fun method => method.methodName == name

/-- The reference class of `An` has the method of `cls`, and there is a body for it. -/
structure Exposes (cls : ActorClass) (method : ActorMethodInfo) : Prop where
  visible : chain.refLookup method.methodName = some cls
  annotated : method ∈ cls.info.methods
  notPure : method.isPureVirtual = false

/-- The message that the reference method of `method` builds makes `do_work` of the runtime
class call that method, up to virtual overriding. -/
def Reaches (cls : ActorClass) (method : ActorMethodInfo) : Prop :=
  ∃ refMethod ∈ generateActorRefMethodDefs cls.info, refMethod.methodName = method.methodName ∧
    ∃ msg, cls.refMessage refMethod = some msg ∧
      chain.doWork msg = chain.invoke cls method

end InheritanceChain

end Hiactor.Codegen
