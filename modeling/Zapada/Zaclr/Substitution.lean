import Zapada.Zaclr.GenericContexts

namespace Zapada.Zaclr

open List

namespace GenericArgument

/-- Simultaneous substitution of variables; only instantiations have arguments. -/
def mapVars (image : GenericArgument → GenericArgument) : GenericArgument → GenericArgument
  | mk kind elementType token assembly index args =>
    match kind with
    | .typeVar | .methodVar => image (mk kind elementType token assembly index args)
    | .genericInst => mk kind elementType token assembly index (args.map (mapVars image))
    | _ => mk kind elementType token assembly index args

def vars : GenericArgument → List GenericArgument
  | mk kind elementType token assembly index args =>
    match kind with
    | .typeVar | .methodVar => [mk kind elementType token assembly index args]
    | .genericInst => args.flatMap vars
    | _ => []

/-- The argument of a context for a variable: a type argument for a type variable, a method
argument for a method variable. -/
def binding (typeArgs methodArgs : List GenericArgument) : GenericArgument → Option GenericArgument
  | mk .typeVar _ _ _ index _ => typeArgs[index]?
  | mk _ _ _ _ index _ => methodArgs[index]?

/-- The argument that is taken for a variable: without type arguments, those of the method. -/
def taken (typeArgs methodArgs : List GenericArgument) : GenericArgument → Option GenericArgument :=
  binding (if typeArgs.isEmpty then methodArgs else typeArgs) methodArgs

theorem tree_induction {holds : GenericArgument → Prop}
    (step : ∀ kind elementType token assembly index args, (∀ arg ∈ args, holds arg) →
      holds (mk kind elementType token assembly index args)) (tree : GenericArgument) :
    holds tree :=
  @GenericArgument.rec holds (fun args => ∀ arg ∈ args, holds arg) step nofun
    (fun _ _ first others => forall_mem_cons.mpr ⟨first, others⟩) tree

variable {image other : GenericArgument → GenericArgument}

theorem mapVars_eq_iff (tree : GenericArgument) :
    tree.mapVars image = tree.mapVars other ↔ ∀ v ∈ tree.vars, image v = other v := by
  induction tree using tree_induction with
  | step kind elementType token assembly index args ih =>
    cases kind with
    | genericInst =>
      simp only [mapVars, vars, mk.injEq, true_and, map_inj_left, forall_mem_flatMap]
      exact forall₂_congr ih
    | _ => simp [mapVars, vars]

theorem mapVars_mapVars (tree : GenericArgument) :
    (tree.mapVars image).mapVars other = tree.mapVars fun v => (image v).mapVars other := by
  induction tree using tree_induction with
  | step kind elementType token assembly index args ih =>
    cases kind with
    | genericInst =>
      simp only [mapVars, mk.injEq, true_and, map_map, map_inj_left]
      exact ih
    | _ => simp [mapVars]

theorem mapVars_id (tree : GenericArgument) : tree.mapVars id = tree := by
  induction tree using tree_induction with
  | step kind elementType token assembly index args ih =>
    cases kind with
    | genericInst => simp only [mapVars, map_congr_left ih, map_id']
    | _ => simp [mapVars]

theorem vars_mapVars (tree : GenericArgument) :
    (tree.mapVars image).vars = tree.vars.flatMap fun v => (image v).vars := by
  induction tree using tree_induction with
  | step kind elementType token assembly index args ih =>
    cases kind with
    | genericInst =>
      simp only [mapVars, vars, flatMap_map, flatMap_assoc]
      exact flatMap_congr ih
    | _ => simp [mapVars, vars]

/-- What is listed as a variable is one. -/
theorem vars_of_mem {tree v : GenericArgument} :
    v ∈ tree.vars → v.vars = [v] ∧ ∀ image, v.mapVars image = image v := by
  induction tree using tree_induction with
  | step kind elementType token assembly index args ih =>
    cases kind with
    | genericInst =>
      simp only [vars, mem_flatMap]
      rintro ⟨arg, member, inside⟩
      exact ih arg member inside
    | _ => simp +contextual [vars, mapVars]

end GenericArgument

open GenericArgument

variable (typeArgs methodArgs : List GenericArgument)

theorem substituteArgumentArray_eq (args : List GenericArgument) :
    substituteArgumentArray typeArgs methodArgs args =
      args.map (substituteArgument typeArgs methodArgs) := by
  induction args with
  | nil => rfl
  | cons arg args ih => rw [substituteArgumentArray, ih, map_cons]

theorem substituteArgument_eq (tree : GenericArgument) :
    substituteArgument typeArgs methodArgs tree =
      tree.mapVars fun v => (taken typeArgs methodArgs v).getD v := by
  induction tree using tree_induction with
  | step kind elementType token assembly index args ih =>
    cases kind with
    | genericInst =>
      simp only [substituteArgument, mapVars, substituteArgumentArray_eq, map_congr_left ih]
    | typeVar =>
      simp only [substituteArgument, mapVars, taken, binding]
      split <;> rfl
    | _ => simp [substituteArgument, mapVars, taken, binding]

/-- What an outer context makes of the argument that is taken. -/
theorem taken_substituted (outerTypes outerMethods : List GenericArgument) (v : GenericArgument) :
    taken (substituteArgumentArray outerTypes outerMethods typeArgs)
      (substituteArgumentArray outerTypes outerMethods methodArgs) v =
      (taken typeArgs methodArgs v).map (substituteArgument outerTypes outerMethods) := by
  simp only [substituteArgumentArray_eq, taken, isEmpty_map]
  unfold binding
  cases typeArgs.isEmpty <;> split <;> exact getElem?_map ..

theorem taken_closed {v image : GenericArgument}
    (closed : ∀ arg ∈ typeArgs ++ methodArgs, arg.vars = [])
    (found : taken typeArgs methodArgs v = some image) : image.vars = [] := by
  apply closed
  rw [mem_append]
  unfold taken binding at found
  split at found
  · split at found
    · exact .inr (mem_of_getElem? found)
    · exact .inl (mem_of_getElem? found)
  · exact .inr (mem_of_getElem? found)

/-- Substitution is the simultaneous one where no type variable takes an argument of the method.
It keeps closed trees, closes just the trees for whose variables a closed context has arguments,
and composes unless the outer context has an argument that the inner one lacks. -/
theorem substitution_laws (typeArgs methodArgs outerTypes outerMethods : List GenericArgument)
    (tree : GenericArgument) :
    (substituteArgument typeArgs methodArgs tree =
        tree.mapVars (fun v => (binding typeArgs methodArgs v).getD v) ↔
      (typeArgs = [] → ∀ v ∈ tree.vars,
        (binding methodArgs methodArgs v).getD v = (binding [] methodArgs v).getD v)) ∧
    (tree.vars = [] → substituteArgument typeArgs methodArgs tree = tree) ∧
    ((∀ arg ∈ typeArgs ++ methodArgs, arg.vars = []) →
      ((substituteArgument typeArgs methodArgs tree).vars = [] ↔
        ∀ v ∈ tree.vars, taken typeArgs methodArgs v ≠ none)) ∧
    ((∀ arg ∈ outerTypes ++ outerMethods, arg.vars = []) →
      (substituteArgument outerTypes outerMethods (substituteArgument typeArgs methodArgs tree) =
          substituteArgument (substituteArgumentArray outerTypes outerMethods typeArgs)
            (substituteArgumentArray outerTypes outerMethods methodArgs) tree ↔
        ∀ v ∈ tree.vars, taken outerTypes outerMethods v ≠ none →
          taken typeArgs methodArgs v ≠ none)) := by
  refine ⟨?_, fun closed => ?_, fun closed => ?_, fun closed => ?_⟩
  · rw [substituteArgument_eq, mapVars_eq_iff]
    cases typeArgs with
    | nil => simp [taken]
    | cons first rest => simp [taken]
  · rw [substituteArgument_eq]
    refine ((mapVars_eq_iff tree).mpr fun v member => ?_).trans tree.mapVars_id
    simp [closed] at member
  · rw [substituteArgument_eq, vars_mapVars, flatMap_eq_nil_iff]
    refine forall₂_congr fun v member => ?_
    cases found : taken typeArgs methodArgs v with
    | none => simp [(vars_of_mem member).1]
    | some image => simpa using taken_closed _ _ closed found
  · simp only [substituteArgument_eq, mapVars_mapVars, mapVars_eq_iff, taken_substituted]
    refine forall₂_congr fun v member => ?_
    cases found : taken typeArgs methodArgs v with
    | some image => simp [substituteArgument_eq]
    | none =>
      cases outer : taken outerTypes outerMethods v with
      | none => simp [(vars_of_mem member).2, outer]
      | some image =>
        -- the outer argument is closed, the variable that stays is not
        have variableFree := taken_closed _ _ closed outer
        simp only [Option.getD_none, (vars_of_mem member).2, outer, Option.getD_some,
          Option.map_none]
        refine iff_of_false (fun same => ?_) (by simp)
        rw [same, (vars_of_mem member).1] at variableFree
        cases variableFree

/-- A type variable takes a method argument where there are no type arguments; one that has no
argument stays, so that an outer context can replace it. -/
theorem substitution_misses :
    substituteArgument [] [.mk .primitive 8 0 0 0 []] (.mk .typeVar 0x13 0 0 0 []) =
      .mk .primitive 8 0 0 0 [] ∧
    binding [] [.mk .primitive 8 0 0 0 []] (.mk .typeVar 0x13 0 0 0 []) = none ∧
    (substituteArgument [.mk .primitive 8 0 0 0 []] [] (.mk .typeVar 0x13 0 0 1 [])).vars ≠ [] ∧
    substituteArgument [.mk .primitive 8 0 0 0 []] []
        (substituteArgument [] [] (.mk .typeVar 0x13 0 0 0 [])) ≠
      substituteArgument [] [] (.mk .typeVar 0x13 0 0 0 []) := by
  refine ⟨rfl, rfl, ?_, by decide⟩
  simp [substituteArgument, vars]

end Zapada.Zaclr
