import Adbi.DefinitionOrder
import Adbi.Lib.Acyclic
import Adbi.Lib.Runs
import Adbi.Lib.Stateful

/-! The order in which a type and what it depends on are defined. It comes to its end and is
right as long as no anonymous type comes back to itself by way of anonymous types, and no
type that cannot be declared forward to itself by way of its requirements. -/
namespace Adbi.DefinitionOrderProofs
open Relation Adbi.Lib Adbi.DefinitionOrder

variable {α : Type} {g : Types α} {order : SetOrder α} {limit depth : Nat} {t x : α}

/-! ## Requirements -/

/-- A member of a compound, or what another type is made of. -/
def Part (g : Types α) (t c : α) : Prop :=
  (g.kind t).isCompound = true ∧ c ∈ g.members t ∨ (g.kind t).isNested = true ∧ c = g.inner t

/-- An anonymous part, whose requirements are passed on. -/
def Passes (g : Types α) (t c : α) : Prop := Part g t c ∧ g.isAnonymous c = true

/-- A part with a name, of the type or of what passes on its requirements. -/
def RequiresBy (g : Types α) (indirect : Bool) (t x : α) : Prop :=
  ∃ u, ReflTransGen (Passes g) t u ∧ Part g u x ∧ g.isAnonymous x = false ∧
  (g.kind u).isIndirect = indirect

/-- The type must be defined before. -/
def Hard (g : Types α) : α → α → Prop := RequiresBy g false

/-- The type must be declared before. -/
def Soft (g : Types α) : α → α → Prop := RequiresBy g true

theorem compound_or_nested (k : Kind) : k.isCompound = true → k.isNested = false ∧
    k.isIndirect = false := by
  cases k <;> decide

theorem member_of_compound (compound : (g.kind t).isCompound = true) (part : Part g t x) :
    x ∈ g.members t := by
  rcases part with ⟨-, member⟩ | ⟨nested, -⟩
  · exact member
  · rw [(compound_or_nested _ compound).1] at nested
    cases nested

theorem inner_of_simple (simple : ¬(g.kind t).isCompound = true) (part : Part g t x) :
    x = g.inner t := by
  rcases part with ⟨compound, -⟩ | ⟨-, isInner⟩
  · exact absurd compound simple
  · exact isInner

theorem requiresBy_head (indirect : Bool) :
    RequiresBy g indirect t x ↔ (Part g t x ∧ g.isAnonymous x = false ∧
      (g.kind t).isIndirect = indirect) ∨
      ∃ c, Passes g t c ∧ RequiresBy g indirect c x := by
  constructor
  · rintro ⟨u, reaches, own⟩
    rcases reaches.cases_head with rfl | ⟨c, step, rest⟩
    · exact .inl own
    · exact .inr ⟨c, step, u, rest, own⟩
  · rintro (own | ⟨c, step, u, rest, own⟩)
    · exact ⟨t, .refl, own⟩
    · exact ⟨u, .head step rest, own⟩

/-- What the two parameters of the code have to be. -/
structure Chooses (g : Types α) (indirect : Bool) (ofMember ofInner : α → List α) : Prop where
  member : ∀ m, ofMember m = if indirect then [] else [m]
  inner : ∀ t, ofInner t = if (g.kind t).isIndirect = indirect then [g.inner t] else []

theorem mem_requirementsThrough {indirect : Bool} {ofMember ofInner : α → List α}
    (chooses : Chooses g indirect ofMember ofInner)
    {reqs : List α} (found : requirementsThrough g order ofMember ofInner limit t = .ok reqs) :
    x ∈ reqs ↔ RequiresBy g indirect t x := by
  induction limit generalizing t reqs with
  | zero => cases found
  | succ limit ih =>
    rw [requiresBy_head]
    rw [requirementsThrough] at found
    split at found
    · rename_i compound
      obtain ⟨parts, ran, isReqs⟩ := bind_ok found
      cases isReqs
      rw [order.mem_ofList, List.mem_flatten]
      constructor
      · rintro ⟨part, member, inside⟩
        obtain ⟨m, isMember, isPart⟩ := (mem_mapM ran part).mp member
        split at isPart
        · rename_i anonymous
          exact .inr ⟨m, ⟨.inl ⟨compound, isMember⟩, anonymous⟩, (ih isPart).mp inside⟩
        · rename_i named
          cases isPart
          rw [chooses.member] at inside
          cases indirect with
          | true => cases inside
          | false =>
            cases List.mem_singleton.mp inside
            exact .inl ⟨.inl ⟨compound, isMember⟩, Bool.not_eq_true _ ▸ named,
              (compound_or_nested _ compound).2⟩
      · rintro (⟨part, named, direct⟩ | ⟨c, ⟨part, anonymous⟩, later⟩)
        · have isMember := member_of_compound compound part
          obtain ⟨reqs, member, isPart⟩ := mapM_ran ran x isMember
          rw [if_neg (by simp [named])] at isPart
          cases isPart
          refine ⟨_, member, ?_⟩
          rw [chooses.member, if_neg (by rw [← direct, (compound_or_nested _ compound).2]; decide)]
          exact List.mem_singleton.mpr rfl
        · obtain ⟨reqs, member, isPart⟩ := mapM_ran ran c (member_of_compound compound part)
          rw [if_pos anonymous] at isPart
          exact ⟨reqs, member, (ih isPart).mpr later⟩
    · rename_i simple
      split at found
      · rename_i nested
        split at found
        · rename_i anonymous
          rw [ih found]
          constructor
          · exact fun later => .inr ⟨g.inner t, ⟨.inr ⟨nested, rfl⟩, anonymous⟩, later⟩
          · rintro (⟨part, named, -⟩ | ⟨c, ⟨part, -⟩, later⟩)
            · rw [inner_of_simple simple part, anonymous] at named
              cases named
            · exact inner_of_simple simple part ▸ later
        · rename_i named
          cases found
          rw [order.mem_ofList, chooses.inner]
          constructor
          · intro inside
            split at inside
            · rename_i direct
              cases List.mem_singleton.mp inside
              exact .inl ⟨.inr ⟨nested, rfl⟩, Bool.not_eq_true _ ▸ named, direct⟩
            · cases inside
          · rintro (⟨part, -, direct⟩ | ⟨c, ⟨part, anonymous⟩, -⟩)
            · rw [if_pos direct, inner_of_simple simple part]
              exact List.mem_singleton.mpr rfl
            · rw [inner_of_simple simple part] at anonymous
              exact absurd anonymous named
      · rename_i flat
        cases found
        rw [order.mem_ofList]
        constructor
        · intro none
          cases none
        · have noPart (c : α) : ¬Part g t c := by
            rintro (⟨compound, -⟩ | ⟨nested, -⟩)
            · exact simple compound
            · exact flat nested
          rintro (⟨part, -⟩ | ⟨c, ⟨part, -⟩, -⟩)
          · exact absurd part (noPart x)
          · exact absurd part (noPart c)

/-- Without a cycle of anonymous types the requirements are found. -/
theorem requirementsThrough_ran [Finite α] (order : SetOrder α) (acyclic : Acyclic (Passes g))
    (ofMember ofInner : α → List α)
    (deep : height (Passes g) t < limit) :
    ∃ reqs, requirementsThrough g order ofMember ofInner limit t = .ok reqs := by
  induction limit generalizing t with
  | zero => cases deep
  | succ limit ih =>
    have next {c : α} (step : Passes g t c) :=
      ih (Nat.lt_of_lt_of_le (height_lt acyclic step) (Nat.lt_succ_iff.mp deep))
    rw [requirementsThrough]
    split
    · rename_i compound
      obtain ⟨parts, ran⟩ := mapM_total (l := g.members t) (f := fun m =>
        if g.isAnonymous m then requirementsThrough g order ofMember ofInner limit m
          else .ok (ofMember m)) (fun m member => by
          split
          · rename_i anonymous
            exact next ⟨.inl ⟨compound, member⟩, anonymous⟩
          · exact ⟨_, rfl⟩)
      rw [ran]
      exact ⟨_, rfl⟩
    · split
      · rename_i nested
        split
        · rename_i anonymous
          exact next ⟨.inr ⟨nested, rfl⟩, anonymous⟩
        · exact ⟨_, rfl⟩
      · exact ⟨_, rfl⟩

/-- Both sets of requirements, as the code finds them. -/
structure Requirements (g : Types α) (order : SetOrder α) (limit : Nat) (t : α)
    (hard soft : List α) : Prop where
  hardRan : hardRequirements g order limit t = .ok hard
  softRan : softRequirements g order limit t = .ok soft
  mem_hard : ∀ x, x ∈ hard ↔ Hard g t x
  mem_soft : ∀ x, x ∈ soft ↔ Soft g t x

theorem requirements_found [Finite α] (acyclic : Acyclic (Passes g)) (order : SetOrder α)
    (deep : Nat.card α < limit) (t : α) :
    ∃ hard soft, Requirements g order limit t hard soft := by
  have deep : height (Passes g) t < limit := Nat.lt_of_le_of_lt (height_le_card _ t) deep
  obtain ⟨hard, hardRan⟩ := requirementsThrough_ran order acyclic (fun m => [m])
    (fun t => if (g.kind t).isIndirect then [] else [g.inner t]) deep
  obtain ⟨soft, softRan⟩ := requirementsThrough_ran order acyclic (fun _ => [])
    (fun t => if (g.kind t).isIndirect then [g.inner t] else []) deep
  refine ⟨hard, soft, hardRan, softRan, fun x => ?_, fun x => ?_⟩
  · refine mem_requirementsThrough ⟨fun m => rfl, fun t => ?_⟩ hardRan
    cases (g.kind t).isIndirect <;> rfl
  · refine mem_requirementsThrough ⟨fun m => rfl, fun t => ?_⟩ softRan
    rfl

/-! ## Orders of definitions -/

/-- Nothing is defined twice, before what it requires, or declared that cannot be. -/
inductive Valid (g : Types α) : List (TypeDeclaration α) → Prop where
  | nil : Valid g []
  | forward {ret : List (TypeDeclaration α)} {t : α} (valid : Valid g ret)
      (forwardable : isForwardable g t = true) : Valid g (ret ++ [⟨t, false⟩])
  | define {ret : List (TypeDeclaration α)} {t : α} (valid : Valid g ret) (once : ⟨t, true⟩ ∉ ret)
      (hard : ∀ x, Hard g t x → ⟨x, true⟩ ∈ ret)
      (soft : ∀ x, Soft g t x → ⟨x, true⟩ ∈ ret ∨ ⟨x, false⟩ ∈ ret) : Valid g (ret ++ [⟨t, true⟩])

variable {ret : List (TypeDeclaration α)}

/-- What must be defined before a type. -/
def Needs (g : Types α) (t x : α) : Prop := Hard g t x ∨ Soft g t x ∧ isForwardable g x = false

theorem Valid.forwardable (valid : Valid g ret) (declared : ⟨x, false⟩ ∈ ret) :
    isForwardable g x = true := by
  induction valid with
  | nil => cases declared
  | forward _ forwardable ih =>
    rcases List.mem_append.mp declared with earlier | last
    · exact ih earlier
    · cases List.mem_singleton.mp last
      exact forwardable
  | define _ _ _ _ ih =>
    rcases List.mem_append.mp declared with earlier | last
    · exact ih earlier
    · cases List.mem_singleton.mp last

/-- With a type, all that it needs is defined. -/
theorem Valid.needs (valid : Valid g ret) (defined : ⟨t, true⟩ ∈ ret) (needs : Needs g t x) :
    ⟨x, true⟩ ∈ ret := by
  induction valid with
  | nil => cases defined
  | forward _ _ ih =>
    rcases List.mem_append.mp defined with earlier | last
    · exact List.mem_append_left _ (ih earlier)
    · cases List.mem_singleton.mp last
  | define valid _ hard soft ih =>
    rcases List.mem_append.mp defined with earlier | last
    · exact List.mem_append_left _ (ih earlier)
    · cases List.mem_singleton.mp last
      refine List.mem_append_left _ ?_
      rcases needs with isHard | ⟨isSoft, closed⟩
      · exact hard x isHard
      · rcases soft x isSoft with earlier | declared
        · exact earlier
        · rw [valid.forwardable declared] at closed
          cases closed

theorem Valid.before (valid : Valid g ret) {earlier later : List (TypeDeclaration α)}
    (split : ret = earlier ++ ⟨x, true⟩ :: later) : (∀ y, Hard g x y → ⟨y, true⟩ ∈ earlier) ∧
      ∀ y, Soft g x y → ⟨y, true⟩ ∈ earlier ∨ ⟨y, false⟩ ∈ earlier := by
  induction valid generalizing later with
  | nil => simp at split
  | @forward ret t _ _ ih =>
    rcases List.eq_nil_or_concat later with rfl | ⟨rest, last, rfl⟩
    · have ends := (List.append_inj' split rfl).2
      cases ends
    · rw [List.concat_eq_append, ← List.cons_append, ← List.append_assoc] at split
      exact ih (List.append_inj' split rfl).1
  | @define ret t _ _ hard soft ih =>
    rcases List.eq_nil_or_concat later with rfl | ⟨rest, last, rfl⟩
    · obtain ⟨rfl, ends⟩ := List.append_inj' split rfl
      cases ends
      exact ⟨hard, soft⟩
    · rw [List.concat_eq_append, ← List.cons_append, ← List.append_assoc] at split
      exact ih (List.append_inj' split rfl).1

theorem Valid.count_le_one [DecidableEq α] (valid : Valid g ret) (x : α) : ret.count ⟨x, true⟩ ≤ 1 := by
  induction valid with
  | nil => exact Nat.zero_le 1
  | @forward ret t _ _ ih =>
    rw [List.count_append, List.count_singleton]
    simpa using ih
  | @define ret t _ once _ _ ih =>
    rw [List.count_append]
    by_cases same : x = t
    · rw [same, List.count_eq_zero_of_not_mem once, Nat.zero_add]
      exact List.count_le_length
    · rw [List.count_singleton, if_neg (by simpa using Ne.symm same)]
      exact ih

/-! ## Processing a type -/

variable {P Q : α → Prop} {ret' : List (TypeDeclaration α)}

/-- The order goes on to another one that is valid, and defines in between only types with a property. -/
structure Extends (g : Types α) (P : α → Prop) (ret ret' : List (TypeDeclaration α)) : Prop where
  grows : ∃ new, ret' = ret ++ new ∧ ∀ x, ⟨x, true⟩ ∈ new → P x
  valid : Valid g ret'

theorem Extends.mem {d : TypeDeclaration α} (extends_ : Extends g P ret ret') (member : d ∈ ret) :
    d ∈ ret' := by
  obtain ⟨new, rfl, -⟩ := extends_.grows
  exact List.mem_append_left new member

theorem Extends.refl (valid : Valid g ret) : Extends g P ret ret :=
  ⟨⟨[], (List.append_nil ret).symm, fun x none => by cases none⟩, valid⟩

theorem Extends.trans {ret'' : List (TypeDeclaration α)} (first : Extends g P ret ret')
    (second : Extends g P ret' ret'') :
    Extends g P ret ret'' := by
  obtain ⟨new, rfl, defines⟩ := first.grows
  obtain ⟨more, rfl, definesMore⟩ := second.grows
  refine ⟨⟨new ++ more, List.append_assoc _ _ _, fun x member => ?_⟩, second.valid⟩
  rcases List.mem_append.mp member with earlier | later
  · exact defines x earlier
  · exact definesMore x later

theorem Extends.mono (extends_ : Extends g P ret ret') (weaker : ∀ x, P x → Q x) :
    Extends g Q ret ret' := by
  obtain ⟨new, isNew, defines⟩ := extends_.grows
  exact ⟨⟨new, isNew, fun x member => weaker x (defines x member)⟩, extends_.valid⟩

/-- A loop whose rounds go on with the order, each to where something is done. -/
theorem foldlM_extends (round : List (TypeDeclaration α) → α → Except Stop (List (TypeDeclaration α)))
    (done : List (TypeDeclaration α) → α → Prop) {l : List α}
    (later : ∀ ret ret' a, Extends g P ret ret' → done ret a → done ret' a)
    (rounds : ∀ a ∈ l, ∀ ret, Valid g ret →
      ∃ ret', round ret a = .ok ret' ∧ Extends g P ret ret' ∧ done ret' a)
    (valid : Valid g ret) : ∃ ret', l.foldlM round ret = .ok ret' ∧ Extends g P ret ret' ∧
    ∀ a ∈ l, done ret' a := by
  induction l generalizing ret with
  | nil => exact ⟨ret, rfl, .refl valid, fun a none => by cases none⟩
  | cons a rest ih =>
    obtain ⟨next, ran, first, doneFirst⟩ := rounds a List.mem_cons_self ret valid
    obtain ⟨last, ranLast, others, doneOthers⟩ :=
      ih (fun b member => rounds b (List.mem_cons_of_mem a member)) first.valid
    rw [List.foldlM_cons, ran]
    refine ⟨last, ranLast, first.trans others, fun b member => ?_⟩
    rcases List.mem_cons.mp member with rfl | member
    · exact later _ _ b others doneFirst
    · exact doneOthers b member

section
variable [DecidableEq α]

theorem isDefined_iff : isDefined ret x = true ↔ ⟨x, true⟩ ∈ ret := decide_eq_true_iff

theorem isDeclared_iff : isDeclared ret x = true ↔ ⟨x, true⟩ ∈ ret ∨ ⟨x, false⟩ ∈ ret := by
  rw [isDeclared, Bool.or_eq_true, isDefined_iff, decide_eq_true_iff]

theorem forward_extends (valid : Valid g ret) (t : α) :
    Extends g P ret (forward g ret t) ∧
    (isForwardable g t = true → isDeclared (forward g ret t) t = true) := by
  unfold forward
  split
  · rename_i both
    obtain ⟨forwardable, -⟩ := Bool.and_eq_true_iff.mp both
    refine ⟨⟨⟨[⟨t, false⟩], rfl, fun x member => ?_⟩, .forward valid forwardable⟩, fun _ => ?_⟩
    · cases List.mem_singleton.mp member
    · exact isDeclared_iff.mpr (.inr (List.mem_append_right _ List.mem_cons_self))
  · rename_i passes
    refine ⟨.refl valid, fun forwardable => ?_⟩
    simpa [forwardable] using passes

theorem forwards_extend (valid : Valid g ret) (l : List α) :
    Extends g P ret (l.foldl (forward g) ret) ∧
      ∀ a ∈ l, isForwardable g a = true → isDeclared (l.foldl (forward g) ret) a = true := by
  have rounds := foldlM_extends (P := P) (l := l) (fun ret a => .ok (forward g ret a))
    (fun ret a => isForwardable g a = true → isDeclared ret a = true)
    (fun ret ret' a more done forwardable =>
      isDeclared_iff.mpr ((isDeclared_iff.mp (done forwardable)).imp more.mem more.mem))
    (fun a _ ret valid => ⟨_, rfl, forward_extends valid a⟩) valid
  obtain ⟨ret', ran, rest⟩ := rounds
  have pure : l.foldlM (fun ret a => (Except.ok (forward g ret a) : Except Stop _)) ret =
      .ok (l.foldl (forward g) ret) :=
    List.foldlM_pure
  cases pure.symm.trans ran
  exact rest

/-- Processing a type defines it last, unless it is defined, and with it types that it needs and no
others. -/
theorem processType_ran [Finite α] (passes : Acyclic (Passes g)) (acyclic : Acyclic (Needs g))
    (order : SetOrder α)
    (deep : Nat.card α < limit) (depth : Nat) (t : α) (ret : List (TypeDeclaration α))
    (room : height (Needs g) t < depth)
    (valid : Valid g ret) :
    ∃ ret', processType g order limit depth t ret = .ok ret' ∧
    Extends g (ReflTransGen (Needs g) t) ret ret' ∧
      ⟨t, true⟩ ∈ ret' ∧ (⟨t, true⟩ ∉ ret → ∃ earlier, ret' = earlier ++ [⟨t, true⟩]) := by
  induction depth generalizing t ret with
  | zero => cases room
  | succ depth ih =>
    rw [processType]
    split
    · rename_i defined
      have defined := isDefined_iff.mp defined
      exact ⟨ret, rfl, .refl valid, defined, fun fresh => absurd defined fresh⟩
    · rename_i fresh
      have fresh : ⟨t, true⟩ ∉ ret := fun member => fresh (isDefined_iff.mpr member)
      obtain ⟨hard, soft, found⟩ := requirements_found passes order deep t
      rw [found.softRan, ok_bind, found.hardRan, ok_bind]
      -- a requirement leaves less room, and does not come back to the type
      have child {c : α} (needs : Needs g t c) (ret : List (TypeDeclaration α)) (valid : Valid g ret) :
          ∃ ret', processType g order limit depth c ret = .ok ret' ∧
          Extends g (TransGen (Needs g) t) ret ret' ∧
            ⟨c, true⟩ ∈ ret' := by
        obtain ⟨ret', ran, more, defined, -⟩ := ih c ret
          (Nat.lt_of_lt_of_le (height_lt acyclic needs) (Nat.lt_succ_iff.mp room)) valid
        exact ⟨ret', ran, more.mono fun x later => TransGen.head' needs later, defined⟩
      obtain ⟨forwards, declared⟩ :=
        forwards_extend (P := TransGen (Needs g) t) valid (order.union soft hard)
      obtain ⟨forwardSelf, -⟩ := forward_extends (P := TransGen (Needs g) t) forwards.valid t
      obtain ⟨ret₁, ranHard, hards, definedHard⟩ :=
        foldlM_extends (P := TransGen (Needs g) t) (l := hard)
        (fun ret each => processType g order limit depth each ret) (fun ret each => ⟨each, true⟩ ∈ ret)
        (fun _ _ _ more defined => more.mem defined)
        (fun c member ret valid => child (.inl ((found.mem_hard c).mp member)) ret valid)
          forwardSelf.valid
      obtain ⟨ret₂, ranSoft, softs, definedSoft⟩ :=
        foldlM_extends (P := TransGen (Needs g) t) (l := soft)
        (fun ret each => if !isForwardable g each &&
          !isDefined ret each then processType g order limit depth each ret
          else .ok ret) (fun ret each => isForwardable g each = true ∨ ⟨each, true⟩ ∈ ret)
        (fun _ _ _ more done => done.imp id more.mem)
        (fun c member ret valid => by
          split
          · rename_i both
            obtain ⟨closed, -⟩ := Bool.and_eq_true_iff.mp both
            obtain ⟨ret', ran, more, defined⟩ :=
            child (.inr ⟨(found.mem_soft c).mp member, by simpa using closed⟩) ret valid
            exact ⟨ret', ran, more, .inr defined⟩
          · rename_i either
            refine ⟨ret, rfl, .refl valid, ?_⟩
            by_cases forwardable : isForwardable g c = true
            · exact .inl forwardable
            · refine .inr (isDefined_iff.mp ?_)
              simpa [forwardable] using either) hards.valid
      have afterForwards := (forwardSelf.trans hards).trans softs
      have whole := forwards.trans afterForwards
      have allHard : ∀ x, Hard g t x → ⟨x, true⟩ ∈ ret₂ :=
        fun x isHard => softs.mem (definedHard x ((found.mem_hard x).mpr isHard))
      have allSoft : ∀ x, Soft g t x → ⟨x, true⟩ ∈ ret₂ ∨ ⟨x, false⟩ ∈ ret₂ := by
        intro x isSoft
        have member := (found.mem_soft x).mpr isSoft
        rcases definedSoft x member with forwardable | defined
        · have early := isDeclared_iff.mp
            (declared x ((order.mem_union _ _ x).mpr (.inl member)) forwardable)
          exact early.imp afterForwards.mem afterForwards.mem
        · exact .inl defined
      have once : ⟨t, true⟩ ∉ ret₂ := by
        intro defined
        obtain ⟨new, rfl, defines⟩ := whole.grows
        rcases List.mem_append.mp defined with earlier | later
        · exact fresh earlier
        · exact acyclic t (defines t later)
      have asserted : (hard.all (isDefined ret₂) && soft.all (isDeclared ret₂)) = true := by
        rw [Bool.and_eq_true, List.all_eq_true, List.all_eq_true]
        exact ⟨fun x member => isDefined_iff.mpr (allHard x ((found.mem_hard x).mp member)),
          fun x member => isDeclared_iff.mpr (allSoft x ((found.mem_soft x).mp member))⟩
      simp only [ranHard, ranSoft, ok_bind, asserted, ↓reduceIte]
      have last : Extends g (ReflTransGen (Needs g) t) ret₂ (ret₂ ++ [⟨t, true⟩]) := by
        refine ⟨⟨[⟨t, true⟩], rfl, fun x member => ?_⟩, .define whole.valid once allHard allSoft⟩
        cases List.mem_singleton.mp member
        exact .refl
      exact ⟨_, rfl, (whole.mono fun x => TransGen.to_reflTransGen).trans last,
        List.mem_append_right _ List.mem_cons_self, fun _ => ⟨ret₂, rfl⟩⟩

/-- The order defines the type last and what it needs once, and before each definition what that
requires. -/
structure DefinesInOrder (g : Types α) (t : α) (ret : List (TypeDeclaration α)) : Prop where
  last : ∃ earlier, ret = earlier ++ [⟨t, true⟩]
  once : ∀ x, ReflTransGen (Needs g) t x → ret.count ⟨x, true⟩ = 1
  needed : ∀ x, ⟨x, true⟩ ∈ ret → ReflTransGen (Needs g) t x
  before : ∀ earlier x later, ret = earlier ++ ⟨x, true⟩ :: later →
      (∀ y, Hard g x y → ⟨y, true⟩ ∈ earlier) ∧
    ∀ y, Soft g x y → ⟨y, true⟩ ∈ earlier ∨ ⟨y, false⟩ ∈ earlier

theorem deforder_ran [Finite α] (passes : Acyclic (Passes g)) (acyclic : Acyclic (Needs g))
    (order : SetOrder α)
    (deep : Nat.card α < limit) (t : α) :
    ∃ ret, deforder g order limit t = .ok ret ∧ DefinesInOrder g t ret := by
  obtain ⟨ret, ran, more, defined, last⟩ := processType_ran passes acyclic order deep limit t []
    (Nat.lt_of_le_of_lt (height_le_card _ t) deep) .nil
  obtain ⟨new, rfl, defines⟩ := more.grows
  refine ⟨ret, ran, last (fun none => by cases none), fun x needs => ?_, defines,
    fun earlier x later => more.valid.before⟩
  have member : ⟨x, true⟩ ∈ ret := by
    induction needs with
    | refl => exact defined
    | tail _ step ih => exact more.valid.needs ih step
  exact Nat.le_antisymm (more.valid.count_le_one x) (List.count_pos_iff.mpr member)

end

/-! ## Writing orders out -/

/-- No definition was written twice. -/
structure Logged (s : Handler α) : Prop where
  nodup : s.definitions.Nodup
  inside : ∀ x ∈ s.definitions, x ∈ s.definedTypes

/-- The handler knows of all that a list has. -/
structure Covers (s : Handler α) (l : List (TypeDeclaration α)) : Prop where
  defined : ∀ x, ⟨x, true⟩ ∈ l → x ∈ s.definedTypes
  declared : ∀ x, ⟨x, false⟩ ∈ l → x ∈ s.definedTypes ∨ x ∈ s.forwardedTypes

/-- Only a `NotImplementedError` ends an import early. -/
def Fine (done : Handler α → Prop) : EStateM.Result Stop (Handler α) Unit → Prop
  | .ok _ s => Logged s ∧ done s
  | .error stop s => Logged s ∧ stop = .notImplemented

theorem fine_bind {first : Action α Unit} {next : Unit → Action α Unit}
    {done done' : Handler α → Prop} {s : Handler α}
    (fine : Fine done (first s)) (rest : ∀ s, Logged s → done s → Fine done' (next () s)) :
    Fine done' ((first >>= next) s) := by
  rw [run_bind]
  cases ran : first s with
  | ok a s' =>
    rw [ran] at fine
    exact rest s' fine.1 fine.2
  | error e s' =>
    rw [ran] at fine
    exact fine

theorem fine_write {lines : Option (List String)} {s : Handler α} {done : Handler α → Prop}
    (logged : Logged s)
    (holds : ∀ l, done { s with lines := l }) : Fine done (write lines s) := by
  cases lines with
  | none => exact ⟨logged, rfl⟩
  | some lines => exact ⟨⟨logged.nodup, logged.inside⟩, holds _⟩

theorem fine_writeOne [Finite α] [DecidableEq α] (passes : Acyclic (Passes g)) (order : SetOrder α)
    (deep : Nat.card α < limit)
    (define declare : α → Option (List String)) {earlier : List (TypeDeclaration α)}
    {each : TypeDeclaration α} {s : Handler α}
    (before : each.isDefinition = true → (∀ y, Hard g each.type y → ⟨y, true⟩ ∈ earlier) ∧
      ∀ y, Soft g each.type y → ⟨y, true⟩ ∈ earlier ∨ ⟨y, false⟩ ∈ earlier)
    (logged : Logged s) (covers : Covers s earlier) :
    Fine (fun s => Covers s (earlier ++ [each])) (writeOne g order limit define declare each s) := by
  obtain ⟨t, isDefinition⟩ := each
  -- what is known of the types before, and that the new one is known, is enough
  have covered (s' : Handler α) (defined : ∀ x ∈ s.definedTypes, x ∈ s'.definedTypes)
      (forwarded : ∀ x ∈ s.forwardedTypes, x ∈ s'.forwardedTypes)
      (here : t ∈ s'.definedTypes ∨ isDefinition = false ∧ t ∈ s'.forwardedTypes) :
        Covers s' (earlier ++ [⟨t, isDefinition⟩]) := by
    refine ⟨fun x member => ?_, fun x member => ?_⟩
    · rcases List.mem_append.mp member with member | last
      · exact defined x (covers.defined x member)
      · cases List.mem_singleton.mp last
        exact here.resolve_right fun declaration => by cases declaration.1
    · rcases List.mem_append.mp member with member | last
      · exact (covers.declared x member).imp (defined x) (forwarded x)
      · cases List.mem_singleton.mp last
        exact here.imp id And.right
  have same := covered s (fun _ => id) (fun _ => id)
  show Fine _ ((if t ∈ s.definedTypes then pure () else _ : Action α Unit) s)
  split
  · rename_i known
    exact ⟨logged, same (.inl known)⟩
  · rename_i fresh
    split
    · rename_i definition
      obtain ⟨hard, soft, found⟩ := requirements_found passes order deep t
      obtain ⟨hards, softs⟩ := before definition
      have asserted : ((hard.all fun x => x ∈ s.definedTypes) &&
          soft.all fun x => x ∈ s.definedTypes || x ∈ s.forwardedTypes) = true := by
        rw [Bool.and_eq_true, List.all_eq_true, List.all_eq_true]
        refine ⟨fun x member => decide_eq_true
          (covers.defined x (hards x ((found.mem_hard x).mp member))), fun x member => ?_⟩
        rw [Bool.or_eq_true, decide_eq_true_iff, decide_eq_true_iff]
        rcases softs x ((found.mem_soft x).mp member) with defined | declared
        · exact .inl (covers.defined x defined)
        · exact covers.declared x declared
      rw [found.hardRan, found.softRan]
      show Fine _ ((if _ = true then _ else _ : Action α Unit) s)
      rw [if_pos asserted]
      refine fine_write
        (s := { s with definedTypes := t :: s.definedTypes, definitions := s.definitions ++ [t] })
        ⟨?_, ?_⟩ fun _ =>
        covered _ (fun x member => List.mem_cons_of_mem t member) (fun _ => id) (.inl List.mem_cons_self)
      · exact List.nodup_append.mpr ⟨logged.nodup, List.nodup_singleton t, fun x member y last same =>
          fresh (logged.inside t (by rwa [same, List.mem_singleton.mp last] at member))⟩
      · intro x member
        rcases List.mem_append.mp member with old | new
        · exact List.mem_cons_of_mem t (logged.inside x old)
        · exact List.mem_singleton.mp new ▸ List.mem_cons_self
    · rename_i declaration
      have declaration : isDefinition = false := by simpa using declaration
      split
      · rename_i known
        exact ⟨logged, same (.inr ⟨declaration, known⟩)⟩
      · exact fine_write (s := { s with forwardedTypes := t :: s.forwardedTypes }) ⟨logged.nodup,
          logged.inside⟩ fun _ =>
          covered _ (fun _ => id) (fun x member => List.mem_cons_of_mem t member)
            (.inr ⟨declaration, List.mem_cons_self⟩)

variable [Finite α] [DecidableEq α]

/-- A whole order is written, or a part of it. -/
theorem fine_order (passes : Acyclic (Passes g)) (order : SetOrder α) (deep : Nat.card α < limit)
    (define declare : α → Option (List String)) {ret : List (TypeDeclaration α)}
    (inOrder : DefinesInOrder g t ret)
    {earlier later : List (TypeDeclaration α)} (split : ret = earlier ++ later) {s : Handler α}
    (logged : Logged s)
    (covers : Covers s earlier) :
    Fine (fun _ => True) (later.forM (writeOne g order limit define declare) s) := by
  induction later generalizing earlier s with
  | nil => exact ⟨logged, trivial⟩
  | cons each later ih =>
    show Fine _ ((writeOne g order limit define declare each >>= fun _ =>
        later.forM (writeOne g order limit define declare)) s)
    refine fine_bind (fine_writeOne passes order deep define declare (fun definition => ?_) logged
      covers) fun s logged covers =>
      ih (by rw [split, List.append_assoc]; rfl) logged covers
    obtain ⟨x, isDefinition⟩ := each
    cases definition
    exact inOrder.before earlier x later split

theorem fine_tree (passes : Acyclic (Passes g)) (acyclic : Acyclic (Needs g)) (order : SetOrder α)
    (deep : Nat.card α < limit)
    (define declare : α → Option (List String)) (t : α) {s : Handler α} (logged : Logged s) :
    Fine (fun _ => True) (defineDatatypeTree g order limit define declare t s) := by
  show Fine _ ((if t ∈ s.definedTypes then pure () else _ : Action α Unit) s)
  split
  · exact ⟨logged, trivial⟩
  · obtain ⟨ret, ran, inOrder⟩ := deforder_ran passes acyclic order deep t
    rw [ran]
    exact fine_order passes order deep define declare inOrder (List.nil_append ret).symm logged
      ⟨fun x none => absurd none List.not_mem_nil, fun x none => absurd none List.not_mem_nil⟩

theorem fine_imports (passes : Acyclic (Passes g)) (acyclic : Acyclic (Needs g))
    (order : SetOrder α) (deep : Nat.card α < limit)
    (define declare : α → Option (List String)) (imports : List α) {s : Handler α} (logged : Logged s) :
    Fine (fun _ => True) (importAll g order limit define declare imports s) := by
  rw [importAll]
  induction imports generalizing s with
  | nil => exact ⟨logged, trivial⟩
  | cons t rest ih =>
    show Fine _ ((defineDatatypeTree g order limit define declare t >>= fun _ =>
      rest.forM (defineDatatypeTree g order limit define declare)) s)
    exact fine_bind (fine_tree passes acyclic order deep define declare t logged) fun s logged _ =>
      ih logged

/-- Without cycles a type has an order of definitions that is right, and imports into a handler fail
no assertion and define no type twice. -/
theorem definitions_in_order (g : Types α) (passes : Acyclic (Passes g))
    (acyclic : Acyclic (Needs g)) (order : SetOrder α)
    (limit : Nat) (deep : Nat.card α < limit) :
    (∀ t, ∃ ret, deforder g order limit t = .ok ret ∧ DefinesInOrder g t ret) ∧
    ∀ define declare imports, ∃ s : Handler α, s.definitions.Nodup ∧
      (importAll g order limit define declare imports .empty = .ok () s ∨
        importAll g order limit define declare imports .empty = .error .notImplemented s) := by
  refine ⟨deforder_ran passes acyclic order deep, fun define declare imports => ?_⟩
  have fine := fine_imports passes acyclic order deep define declare imports
    (s := .empty) ⟨List.nodup_nil, fun x none => by cases none⟩
  cases ran : importAll g order limit define declare imports .empty with
  | ok done s =>
    rw [ran] at fine
    exact ⟨s, fine.1.nodup, .inl rfl⟩
  | error stop s =>
    rw [ran] at fine
    obtain ⟨logged, rfl⟩ := fine
    exact ⟨s, logged.nodup, .inr rfl⟩

/-- Sets that keep the order of insertion. -/
private def inserted (α : Type) : SetOrder α where
  ofList l := l
  union l k := l ++ k
  mem_ofList _ _ := Iff.rfl
  mem_union _ _ _ := List.mem_append

/-- A structure, `true`, with a pointer to itself. -/
private def linked (name : Option String) : Types Bool where
  kind t := if t then .struct else .ptr
  name t := if t then name else none
  inner _ := true
  members _ := [false]

/-- A list with a name. -/
theorem list_in_order : ∃ ret, deforder (linked (some "list")) (inserted Bool) 3 true = .ok ret ∧
    DefinesInOrder (linked (some "list")) true ret := by
  have passes : Acyclic (Passes (linked (some "list"))) := by
    refine acyclic_of_measure (fun t => if t then 1 else 0) ?_
    rintro a (_ | _) ⟨part, anonymous⟩
    · rcases part with ⟨compound, -⟩ | ⟨-, isInner⟩
      · cases a with
        | true => decide
        | false => cases compound
      · cases isInner
    · cases anonymous
  have acyclic : Acyclic (Needs (linked (some "list"))) := by
    refine acyclic_of_measure (fun _ => 0) ?_
    rintro a (_ | _) (⟨u, -, part, named, direct⟩ | ⟨⟨u, -, -, named, -⟩, closed⟩)
    · cases named
    · cases named
    · rcases part with ⟨-, member⟩ | ⟨nested, -⟩
      · cases List.mem_singleton.mp member
      · cases u with
        | true => cases nested
        | false => cases direct
    · cases closed
  exact (definitions_in_order (linked (some "list")) passes acyclic (inserted Bool) 3 (by simp)).1 true

private theorem requirements_unending (ofMember ofInner : Bool → List Bool) (limit : Nat) (t : Bool) :
    requirementsThrough (linked none) (inserted Bool) ofMember ofInner limit t = .error .recursion := by
  induction limit generalizing t with
  | zero => rfl
  | succ limit ih =>
    cases t with
    | true =>
      show ((do
        let reqs ← [false].mapM fun m =>
          if (linked none).isAnonymous m then
            requirementsThrough (linked none) (inserted Bool) ofMember ofInner limit m
          else .ok (ofMember m)
        .ok ((inserted Bool).ofList reqs.flatten)) : Except Stop (List Bool)) = _
      rw [List.mapM_cons, show (linked none).isAnonymous false = true from rfl, if_pos rfl, ih]
      rfl
    | false => exact ih true

/-- A list without one. -/
theorem anonymous_cycle : Acyclic (Needs (linked none)) ∧
    ∀ limit, deforder (linked none) (inserted Bool) limit true = .error .recursion := by
  constructor
  · refine acyclic_of_measure (fun _ => 0) ?_
    rintro a (_ | _) (⟨u, -, -, named, -⟩ | ⟨⟨u, -, -, named, -⟩, -⟩)
    · cases named
    · cases named
    · cases named
    · cases named
  · intro limit
    cases limit with
    | zero => rfl
    | succ depth =>
      show (softRequirements (linked none) (inserted Bool) (depth + 1) true >>= _) = _
      rw [softRequirements, requirements_unending]
      rfl

end Adbi.DefinitionOrderProofs
