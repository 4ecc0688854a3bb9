import Mathlib.Data.List.Basic
import Mathlib.Tactic.Common

/-!
# Layers around a handler

A handler makes a response of a request, or raises, and leaves the state of the request changed.  A layer is a handler
around another one; of several layers, the one that was added last is outermost.

* `Handler`, `stack` — handlers, and a handler within layers;
* `Establishes`, `Keeps` — what a layer makes true of its results, and what it leaves true;
* `stack_establishes` — what one layer establishes, and those around it keep, holds of the stack;
* `setHeader`, `setDefault` — the headers of a response.
-/

namespace CodeReader.Http

section Layers

variable {ρ σ ε α : Type}

abbrev Handler (ρ σ ε α : Type) := ρ → σ → Except ε α × σ

abbrev Layer (ρ σ ε α : Type) := Handler ρ σ ε α → Handler ρ σ ε α

/-- The layers in the order in which they are added. -/
def stack (layers : List (Layer ρ σ ε α)) (app : Handler ρ σ ε α) : Handler ρ σ ε α :=
  layers.foldl (fun inner layer => layer inner) app

variable {P : ρ → Except ε α × σ → Prop} {layer : Layer ρ σ ε α} {layers after : List (Layer ρ σ ε α)}
  {app : Handler ρ σ ε α}

def Establishes (P : ρ → Except ε α × σ → Prop) (layer : Layer ρ σ ε α) : Prop :=
  ∀ inner req st, P req (layer inner req st)

def Keeps (P : ρ → Except ε α × σ → Prop) (layer : Layer ρ σ ε α) : Prop :=
  ∀ inner : Handler ρ σ ε α, (∀ req st, P req (inner req st)) → ∀ req st, P req (layer inner req st)

theorem Establishes.keeps (h : Establishes P layer) : Keeps P layer := fun inner _ => h inner

theorem stack_keeps (h : ∀ layer ∈ layers, Keeps P layer) (happ : ∀ req st, P req (app req st)) (req : ρ) (st : σ) :
    P req (stack layers app req st) := by
  induction layers generalizing app with
  | nil => exact happ req st
  | cons layer layers ih =>
    obtain ⟨hlayer, hlayers⟩ := List.forall_mem_cons.mp h
    exact ih hlayers (hlayer app happ)

/-- **What a layer establishes**, and the layers around it keep. -/
theorem stack_establishes (before : List (Layer ρ σ ε α)) (hlayer : Establishes P layer)
    (hafter : ∀ layer ∈ after, Keeps P layer) (req : ρ) (st : σ) : P req (stack (before ++ layer :: after) app req st) := by
  rw [stack, List.foldl_append, List.foldl_cons]
  exact stack_keeps hafter (hlayer _) req st

theorem stack_append_singleton (layers : List (Layer ρ σ ε α)) (layer : Layer ρ σ ε α) (app : Handler ρ σ ε α) :
    stack (layers ++ [layer]) app = layer (stack layers app) := by
  rw [stack, List.foldl_append]
  rfl

end Layers

/-! ## Headers -/

section Headers

/-- Headers by their names in lower case. -/
abbrev Headers := List (String × String)

/-- `headers[name] = value`: the first header of the name is set, and others of it are dropped. -/
def setHeader (name value : String) : Headers → Headers
  | [] => [(name, value)]
  | h :: hs => if h.1 = name then (name, value) :: hs.filter (·.1 != name) else h :: setHeader name value hs

/-- `headers.setdefault(name, value)`. -/
def setDefault (name value : String) (hs : Headers) : Headers :=
  if (hs.lookup name).isSome then hs else setHeader name value hs

def setHeaders (values hs : Headers) : Headers := values.foldl (fun hs h => setHeader h.1 h.2 hs) hs

def setDefaults (values hs : Headers) : Headers := values.foldl (fun hs h => setDefault h.1 h.2 hs) hs

variable {name other value : String} {hs values : Headers}

@[simp] theorem lookup_setHeader_self : (setHeader name value hs).lookup name = some value := by
  induction hs with
  | nil => simp [setHeader]
  | cons h hs ih =>
    unfold setHeader
    split
    · simp
    · rename_i hne
      have hfalse : (name == h.1) = false := beq_eq_false_iff_ne.mpr (Ne.symm hne)
      rw [List.lookup_cons, hfalse]
      exact ih

theorem lookup_filter_ne (h : other ≠ name) : (hs.filter (·.1 != name)).lookup other = hs.lookup other := by
  induction hs with
  | nil => rfl
  | cons first hs ih =>
    rw [List.filter_cons, List.lookup_cons]
    by_cases hfirst : first.1 = name
    · have hdropped : (first.1 != name) = false := by simp [hfirst]
      have hother : (other == first.1) = false := beq_eq_false_iff_ne.mpr (hfirst ▸ h)
      rw [hdropped, hother]
      exact ih
    · have hkept : (first.1 != name) = true := bne_iff_ne.mpr hfirst
      rw [hkept, if_pos rfl, List.lookup_cons, ih]

theorem lookup_setHeader_ne (h : other ≠ name) : (setHeader name value hs).lookup other = hs.lookup other := by
  have hbeq : (other == name) = false := beq_eq_false_iff_ne.mpr h
  induction hs with
  | nil => simp [setHeader, List.lookup_cons, hbeq]
  | cons first hs ih =>
    unfold setHeader
    split
    · rename_i hfirst
      rw [List.lookup_cons, List.lookup_cons, hbeq, hfirst, hbeq]
      exact lookup_filter_ne h
    · rw [List.lookup_cons, List.lookup_cons, ih]

theorem lookup_setDefault_ne (h : other ≠ name) : (setDefault name value hs).lookup other = hs.lookup other := by
  unfold setDefault
  split
  · rfl
  · exact lookup_setHeader_ne h

/-- A default is there, or what was there before. -/
theorem isSome_lookup_setDefault : ((setDefault name value hs).lookup name).isSome = true := by
  unfold setDefault
  split
  · assumption
  · rw [lookup_setHeader_self]
    rfl

/-- What is there stays there. -/
theorem isSome_lookup_setDefaults (h : (hs.lookup other).isSome = true) :
    ((setDefaults values hs).lookup other).isSome = true := by
  induction values generalizing hs with
  | nil => exact h
  | cons v values ih =>
    apply ih
    by_cases hv : other = v.1
    · rw [hv]
      exact isSome_lookup_setDefault
    · rw [lookup_setDefault_ne hv]
      exact h

theorem isSome_lookup_setDefaults_self (h : (name, value) ∈ values) :
    ((setDefaults values hs).lookup name).isSome = true := by
  induction values generalizing hs with
  | nil => cases h
  | cons v values ih =>
    rcases List.mem_cons.mp h with rfl | hmem
    · show ((setDefaults values (setDefault name value hs)).lookup name).isSome = true
      exact isSome_lookup_setDefaults isSome_lookup_setDefault
    · exact ih hmem

theorem lookup_setDefaults_ne (h : ∀ v ∈ values, other ≠ v.1) :
    (setDefaults values hs).lookup other = hs.lookup other := by
  induction values generalizing hs with
  | nil => rfl
  | cons v values ih =>
    obtain ⟨hv, hvalues⟩ := List.forall_mem_cons.mp h
    exact (ih hvalues).trans (lookup_setDefault_ne hv)

theorem lookup_setHeaders_ne (h : ∀ v ∈ values, other ≠ v.1) : (setHeaders values hs).lookup other = hs.lookup other := by
  induction values generalizing hs with
  | nil => rfl
  | cons v values ih =>
    obtain ⟨hv, hvalues⟩ := List.forall_mem_cons.mp h
    exact (ih hvalues).trans (lookup_setHeader_ne hv)

end Headers

end CodeReader.Http
