import LandscapeKit.LibText

/-!
Argument lists of long options. An option is a flag or takes the next argument as its value, and
an argument that begins with a dash is never a value.
-/

namespace LandscapeKit.Options

structure Occurrence where
  name : Text
  value : Option Text
deriving DecidableEq

def isDashed (arg : Text) : Bool := arg.head? = some '-'

@[simp]
theorem isDashed_cons (c : Char) (arg : Text) : isDashed (c :: arg) = decide (c = '-') := by
  simp [isDashed]

def parse (takesValue : Text → Option Bool) : List Text → Option (List Occurrence)
  | [] => some []
  | arg :: args =>
    match takesValue arg with
    | none => none
    | some false => (parse takesValue args).map (⟨arg, none⟩ :: ·)
    | some true =>
      match args with
      | [] => none
      | value :: args =>
        if isDashed value then none else (parse takesValue args).map (⟨arg, some value⟩ :: ·)

def render (occurrences : List Occurrence) : List Text :=
  occurrences.flatMap fun o => o.name :: o.value.toList

variable {takesValue : Text → Option Bool} {occurrences : List Occurrence}

def Known (takesValue : Text → Option Bool) (o : Occurrence) : Prop :=
  takesValue o.name = some o.value.isSome

theorem parse_render (h : ∀ o ∈ occurrences, Known takesValue o) :
    parse takesValue (render occurrences) =
      if ∀ o ∈ occurrences, ∀ v ∈ o.value, isDashed v = false then some occurrences else none := by
  induction occurrences with
  | nil => rfl
  | cons o occurrences ih =>
    rw [List.forall_mem_cons] at h
    obtain ⟨name, value⟩ := o
    have hknown : takesValue name = some value.isSome := h.1
    cases value with
    | none =>
      have hrender : render (⟨name, none⟩ :: occurrences) = name :: render occurrences := rfl
      rw [hrender, parse.eq_def]
      dsimp only
      rw [hknown]
      dsimp only [Option.isSome]
      rw [ih h.2]
      by_cases hall : ∀ o ∈ occurrences, ∀ v ∈ o.value, isDashed v = false
      · rw [if_pos hall, if_pos (List.forall_mem_cons.mpr ⟨by simp, hall⟩)]
        rfl
      · rw [if_neg hall, if_neg fun h => hall (List.forall_mem_cons.mp h).2]
        rfl
    | some value =>
      have hrender : render (⟨name, some value⟩ :: occurrences) =
        name :: value :: render occurrences := rfl
      rw [hrender, parse.eq_def]
      dsimp only
      rw [hknown]
      dsimp only [Option.isSome]
      cases hdashed : isDashed value with
      | true =>
        rw [if_pos rfl, if_neg]
        intro hall
        have hno := (List.forall_mem_cons.mp hall).1 value rfl
        rw [hdashed] at hno
        cases hno
      | false =>
        rw [if_neg Bool.false_ne_true, ih h.2]
        by_cases hall : ∀ o ∈ occurrences, ∀ v ∈ o.value, isDashed v = false
        · rw [if_pos hall, if_pos]
          · rfl
          · rw [List.forall_mem_cons]
            refine ⟨fun v hv => ?_, hall⟩
            rw [← Option.some.inj hv, hdashed]
        · rw [if_neg hall, if_neg fun h => hall (List.forall_mem_cons.mp h).2]
          rfl

def values (name : Text) (occurrences : List Occurrence) : List Text :=
  (occurrences.filter fun o => o.name = name).filterMap Occurrence.value

def single (name : Text) (occurrences : List Occurrence) : Option Text :=
  match values name occurrences with
  | [value] => some value
  | _ => none

@[simp]
theorem values_nil (name : Text) : values name [] = [] := rfl

@[simp]
theorem values_append (name : Text) (os os' : List Occurrence) :
    values name (os ++ os') = values name os ++ values name os' := by
  rw [values, List.filter_append, List.filterMap_append, values, values]

@[simp]
theorem values_cons (name : Text) (o : Occurrence) (os : List Occurrence) :
    values name (o :: os) = (if o.name = name then o.value.toList else []) ++ values name os := by
  rw [values, List.filter_cons]
  split
  · rename_i h
    rw [if_pos (of_decide_eq_true h), List.filterMap_cons]
    cases o.value <;> rfl
  · rename_i h
    rw [if_neg fun he => h (decide_eq_true he)]
    rfl

theorem values_map (name flag : Text) (vs : List Text) :
    values name (vs.map fun v => ⟨flag, some v⟩) = if flag = name then vs else [] := by
  induction vs with
  | nil => exact (ite_self _).symm
  | cons v vs ih =>
    rw [List.map_cons, values_cons, ih]
    split <;> rfl

end LandscapeKit.Options
