import Mathlib.Tactic.Common

/-! In which order the reader of a cache defines a type and what it depends on, after
`cachereader/datatype`, and how the preprocessor writes such orders out. -/
namespace Adbi.DefinitionOrder

/-- `TypeKinds`, as far as the classes of the types differ. Types of an unknown kind are
unsupported. -/
inductive Kind where
  | builtin | const | ptr | ref | rref | volatile | restrict | array | struct | cls | union | enum
  | typedef | unsupported
  deriving DecidableEq

/-- The types of a binary, which are compared as objects. `inner` is `VoidType()` where a nested
type has no inner id; a typedef without one cannot be built. The members are given by their types. -/
structure Types (α : Type) where
  kind : α → Kind
  name : α → Option String
  inner : α → α
  members : α → List α

/-- How the code ends without returning: with an assertion that fails, at the limit of the
recursion, or with a `NotImplementedError`. -/
inductive Stop where
  | assertion | recursion | notImplemented
  deriving DecidableEq

/-- In which order the elements of a set come, for `set(l)` and for `s | t`. -/
structure SetOrder (α : Type) where
  ofList : List α → List α
  union : List α → List α → List α
  mem_ofList : ∀ l a, a ∈ ofList l ↔ a ∈ l
  mem_union : ∀ l k a, a ∈ union l k ↔ a ∈ l ∨ a ∈ k

variable {α : Type}

def Types.isAnonymous (g : Types α) (t : α) : Bool := g.name t = none || g.name t = some ""

def Kind.isCompound : Kind → Bool
  | .struct | .cls | .union => true
  | _ => false

def Kind.isIndirect : Kind → Bool
  | .ptr | .ref | .rref => true
  | _ => false

/-- The kinds whose requirements are those of the inner type. -/
def Kind.isNested : Kind → Bool
  | .typedef | .array | .const | .volatile | .restrict | .ptr | .ref | .rref => true
  | _ => false

/-! ## Requirements -/

/-- `get_hard_requirements` and `get_soft_requirements`, which differ in what they make of
a member and of an inner type that have names. -/
def requirementsThrough (g : Types α) (order : SetOrder α) (ofMember ofInner : α → List α)
    (limit : Nat) (t : α) :
    Except Stop (List α) :=
  match limit with
  | 0 => .error .recursion
  | limit + 1 =>
    if (g.kind t).isCompound then do
      let reqs ← (g.members t).mapM fun m =>
        if g.isAnonymous m then requirementsThrough g order ofMember ofInner limit m
          else .ok (ofMember m)
      .ok (order.ofList reqs.flatten)
    else if (g.kind t).isNested then
      if g.isAnonymous (g.inner t) then requirementsThrough g order ofMember ofInner limit (g.inner t)
      else .ok (order.ofList (ofInner t))
    else .ok (order.ofList [])

/-- `hard_requirements`. -/
def hardRequirements (g : Types α) (order : SetOrder α) : Nat → α → Except Stop (List α) :=
  requirementsThrough g order (fun m => [m]) fun t => if (g.kind t).isIndirect then [] else [g.inner t]

/-- `soft_requirements`. -/
def softRequirements (g : Types α) (order : SetOrder α) : Nat → α → Except Stop (List α) :=
  requirementsThrough g order (fun _ => []) fun t => if (g.kind t).isIndirect then [g.inner t] else []

/-- `is_forwardable`. `declare` of compounds and of builtin types is a generator, and as such
raises nothing when it is called. -/
def isForwardable (g : Types α) (t : α) : Bool :=
  match g.kind t with
  | .struct | .cls | .union | .builtin => true
  | .typedef =>
    !g.isAnonymous (g.inner t) && ((g.kind (g.inner t)).isCompound || g.kind (g.inner t) = .enum)
  | _ => false

/-! ## The order -/

structure TypeDeclaration (α : Type) where
  type : α
  isDefinition : Bool
  deriving DecidableEq

variable [DecidableEq α]

def isDefined (ret : List (TypeDeclaration α)) (t : α) : Bool := ⟨t, true⟩ ∈ ret

def isDeclared (ret : List (TypeDeclaration α)) (t : α) : Bool := isDefined ret t || ⟨t, false⟩ ∈ ret

/-- A forward declaration, where one is possible and needed. -/
def forward (g : Types α) (ret : List (TypeDeclaration α)) (t : α) : List (TypeDeclaration α) :=
  if isForwardable g t && !isDeclared ret t then ret ++ [⟨t, false⟩] else ret

/-- `process_type`. -/
def processType (g : Types α) (order : SetOrder α) (limit : Nat) :
    Nat → α → List (TypeDeclaration α) → Except Stop (List (TypeDeclaration α))
  | 0, _, _ => .error .recursion
  | depth + 1, t, ret =>
    if isDefined ret t then .ok ret
    else do
      let soft ← softRequirements g order limit t
      let hard ← hardRequirements g order limit t
      let ret := (order.union soft hard).foldl (forward g) ret
      let ret := forward g ret t
      let ret ← hard.foldlM (fun ret each => processType g order limit depth each ret) ret
      let ret ← soft.foldlM (fun ret each =>
        if !isForwardable g each &&
          !isDefined ret each then processType g order limit depth each ret else .ok ret) ret
      if hard.all (isDefined ret) && soft.all (isDeclared ret) then .ok (ret ++ [⟨t, true⟩])
        else .error .assertion

/-- `deforder`. -/
def deforder (g : Types α) (order : SetOrder α) (limit : Nat) (t : α) :
    Except Stop (List (TypeDeclaration α)) :=
  processType g order limit limit t []

/-! ## Writing it out -/

/-- What the preprocessor keeps for a handler, with the definitions and the lines that it has written. -/
structure Handler (α : Type) where
  definedTypes : List α
  forwardedTypes : List α
  definitions : List α
  lines : List String

def Handler.empty : Handler α := ⟨[], [], [], []⟩

/-- What an action on a handler comes to. -/
abbrev Action (α : Type) := EStateM Stop (Handler α)

/-- The lines of `define` or `declare`, or a `NotImplementedError`. -/
def write (lines : Option (List String)) : Action α Unit :=
  match lines with
  | none => throw .notImplemented
  | some lines => modify fun s => { s with lines := s.lines ++ lines }

def lift {β : Type} (result : Except Stop β) : Action α β :=
  match result with
  | .ok b => pure b
  | .error stop => throw stop

/-- The body of the loop of `_define_datatype_tree`. What `define` and `declare` of a type
yield is `define` and `declare`. -/
def writeOne (g : Types α) (order : SetOrder α) (limit : Nat) (define declare : α → Option (List String))
    (each : TypeDeclaration α) : Action α Unit := do
  let s ← get
  if each.type ∈ s.definedTypes then pure ()
  else if each.isDefinition then do
    let hard ← lift (hardRequirements g order limit each.type)
    let soft ← lift (softRequirements g order limit each.type)
    if (hard.all fun x => x ∈ s.definedTypes) &&
      (soft.all fun x => x ∈ s.definedTypes || x ∈ s.forwardedTypes) then do
      modify fun s => { s with
        definedTypes := each.type :: s.definedTypes, definitions := s.definitions ++ [each.type] }
      write (define each.type)
    else throw .assertion
  else if each.type ∈ s.forwardedTypes then pure ()
  else do
    modify fun s => { s with forwardedTypes := each.type :: s.forwardedTypes }
    write (declare each.type)

/-- `_define_datatype_tree`. -/
def defineDatatypeTree (g : Types α) (order : SetOrder α) (limit : Nat)
    (define declare : α → Option (List String))
    (t : α) : Action α Unit := do
  let s ← get
  if t ∈ s.definedTypes then pure ()
  else do
    let deforder ← lift (deforder g order limit t)
    deforder.forM (writeOne g order limit define declare)

/-- The imports into one handler, up to an exception, which none of the callers catches. -/
def importAll (g : Types α) (order : SetOrder α) (limit : Nat)
    (define declare : α → Option (List String))
    (imports : List α) : Action α Unit :=
  imports.forM (defineDatatypeTree g order limit define declare)

end Adbi.DefinitionOrder
